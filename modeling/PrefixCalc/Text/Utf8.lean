import PrefixCalc.Text.Quoted

/-!
# UTF-8

Bytes decoded to text. Of a malformed sequence the longest part that could still have
begun a character is blamed, with the reason why it goes no further.
-/

namespace PrefixCalc.Utf8

/-- Why bytes are not UTF-8. -/
inductive Reason where
  | invalidStart
  | invalidContinuation
  | unexpectedEnd
  deriving DecidableEq, Repr

/-- The words of a reason. -/
def Reason.words : Reason → Text
  | invalidStart => "invalid start byte"
  | invalidContinuation => "invalid continuation byte"
  | unexpectedEnd => "unexpected end of data"

/-- The bytes that are blamed: the first of them, where it stands, and how many there are. -/
structure Malformed where
  first : UInt8
  offset : Nat
  count : Nat
  reason : Reason
  deriving DecidableEq, Repr

/-- The words that report malformed bytes. -/
def Malformed.message (m : Malformed) : Text :=
  "'utf-8' codec can't decode "
    ++ (if m.count = 1 then
          "byte 0x" ++ Text.hex 2 m.first.toNat ++ " in position "
            ++ Text.ofNat m.offset
        else
          "bytes in position " ++ Text.ofNat m.offset ++ "-"
            ++ Text.ofNat (m.offset + m.count - 1))
    ++ ": " ++ m.reason.words

/-- How many bytes follow a first byte, zero if it starts no longer sequence. -/
def following (first : UInt8) : Nat :=
  if 0xC2 ≤ first && first ≤ 0xDF then 1
  else if 0xE0 ≤ first && first ≤ 0xEF then 2
  else if 0xF0 ≤ first && first ≤ 0xF4 then 3
  else 0

/-- Whether a byte may follow a first byte. The bounds rule out sequences longer than
needed, surrogates, and code points past the last one. -/
def fitsSecond (first second : UInt8) : Bool :=
  if first == 0xE0 then 0xA0 ≤ second && second ≤ 0xBF
  else if first == 0xED then 0x80 ≤ second && second ≤ 0x9F
  else if first == 0xF0 then 0x90 ≤ second && second ≤ 0xBF
  else if first == 0xF4 then 0x80 ≤ second && second ≤ 0x8F
  else 0x80 ≤ second && second ≤ 0xBF

/-- Whether a byte may stand later in a sequence. -/
def fitsLater (byte : UInt8) : Bool := 0x80 ≤ byte && byte ≤ 0xBF

/-- The six bits that a later byte adds. -/
def laterBits (byte : UInt8) : Nat := byte.toNat % 0x40

/-- The bits of a first byte of a sequence in which `more` bytes follow. -/
def firstBits (first : UInt8) (more : Nat) : Nat := first.toNat % Nat.pow 2 (6 - more)

/-- Decodes the bytes from `offset` on. -/
def decodeFrom (offset : Nat) : List UInt8 → Except Malformed Text
  | [] => .ok []
  | first :: rest =>
    if first < 0x80 then do
      let text ← decodeFrom (offset + 1) rest
      return .ofNat first.toNat :: text
    else
      let blame (count : Nat) (reason : Reason) : Except Malformed Text :=
        .error ⟨first, offset, count, reason⟩
      let more := following first
      if more = 0 then blame 1 .invalidStart
      else
        match rest with
        | [] => blame 1 .unexpectedEnd
        | b :: rest =>
          if !fitsSecond first b then blame 1 .invalidContinuation
          else
            let two := firstBits first more * 0x40 + laterBits b
            if more = 1 then do
              let text ← decodeFrom (offset + 2) rest
              return .ofNat two :: text
            else
              match rest with
              | [] => blame 2 .unexpectedEnd
              | c :: rest =>
                if !fitsLater c then blame 2 .invalidContinuation
                else
                  let three := two * 0x40 + laterBits c
                  if more = 2 then do
                    let text ← decodeFrom (offset + 3) rest
                    return .ofNat three :: text
                  else
                    match rest with
                    | [] => blame 3 .unexpectedEnd
                    | d :: rest =>
                      if !fitsLater d then blame 3 .invalidContinuation
                      else do
                        let text ← decodeFrom (offset + 4) rest
                        return .ofNat (three * 0x40 + laterBits d) :: text

/-- The text that bytes encode. -/
def decode (bytes : List UInt8) : Except Malformed Text := decodeFrom 0 bytes

end PrefixCalc.Utf8
