import PrefixCalc.Proofs.Json.Quoted
import PrefixCalc.Proofs.OrderedMap
import PrefixCalc.Proofs.Text.Characters
import PrefixCalc.Server.Request

/-!
# Requests as lines

A client writes a request as an object of quoted texts, in plain ASCII, and the server reads the
request back, whatever the code holds.
-/

namespace PrefixCalc

open Text

/-! ## §1 Bytes -/

/-- The bytes of a text in plain ASCII. -/
def Utf8.ascii (text : Text) : List UInt8 := text.map fun c => .ofNat c.toNat

theorem Utf8.decode_ascii {text : Text} (plain : ∀ c ∈ text, c.toNat < 0x80) :
    decode (ascii text) = .ok text := by
  suffices from_ : ∀ offset, decodeFrom offset (ascii text) = .ok text from from_ 0
  induction text with
  | nil => exact fun offset => rfl
  | cons c text ih =>
    intro offset
    obtain ⟨first, plain⟩ := List.forall_mem_cons.mp plain
    have number : (UInt8.ofNat c.toNat).toNat = c.toNat := 
      UInt8.toNat_ofNat_of_lt' (Nat.lt_trans first (by decide))
    have single : UInt8.ofNat c.toNat < 0x80 := by
      rw [UInt8.lt_iff_toNat_lt, number]
      exact first
    rw [ascii, List.map_cons, ← ascii, decodeFrom, if_pos single, ih plain, number,
      CodePoint.ofNat_toNat]
    rfl

/-! ## §2 Objects of texts -/

namespace Json

variable {members : List (Text × Text)}

/-- A member of an object as it is written. -/
def memberText (member : Text × Text) : Text := quoted member.1 ++ ": " ++ quoted member.2

/-- An object of texts as it is written. -/
def objectText (members : List (Text × Text)) : Text :=
  "\x7b" ++ Text.join ", " (members.map memberText) ++ "\x7d"

/-- The members of an object of texts. -/
def textMembers (members : List (Text × Text)) : List (Text × Json) :=
  members.map fun member => (member.1, string member.2)

/-- The members of an object begin with a quote. -/
theorem exists_join_memberText (member : Text × Text) (members : List (Text × Text))
    (behind : Text) :
    ∃ rest, Text.join ", " ((member :: members).map memberText) ++ behind = .char '"' :: rest := by
  cases members with
  | nil =>
    rw [List.map_singleton, Text.join, List.intercalate_singleton]
    exact ⟨_, rfl⟩
  | cons next members =>
    rw [List.map_cons, List.map_cons, Text.join, List.intercalate_cons_cons]
    exact ⟨_, rfl⟩

private theorem readMembers_member {member : Text × Text} (name : Unpaired member.1)
    (content : Unpaired member.2) (fuel room : Nat) (read : OrderedMap Text Json) (behind : Text) :
    readMembers (fuel + 2) room read (memberText member ++ behind)
      = match skipSpace behind with
        | .char '\x7d' :: after =>
          .ok (object (read.insert member.1 (string member.2)).entries, after)
        | .char ',' :: after =>
          readMembers (fuel + 1) room (read.insert member.1 (string member.2)) (skipSpace after)
        | other => wrong .expectingComma other := by
  have spelled : memberText member ++ behind
      = .char '"' :: (member.1.flatMap escape ++ .char '"' :: .char ':' :: .char ' ' ::
          (quoted member.2 ++ behind)) := by
    simp only [memberText, quoted, List.append_assoc]
    rfl
  have colon : skipSpace (.char ':' :: .char ' ' :: (quoted member.2 ++ behind))
      = .char ':' :: .char ' ' :: (quoted member.2 ++ behind) := rfl
  have value : skipSpace (.char ' ' :: (quoted member.2 ++ behind))
      = quoted member.2 ++ behind := rfl
  rw [spelled, readMembers, readString_quoted name]
  simp only [bind, Except.bind, colon, value, readValue_quoted content]
  rfl

/-- The members of an object of texts are read up to its end. -/
theorem readMembers_texts (room : Nat) (behind : Text) {member : Text × Text}
    (unpaired : ∀ m ∈ member :: members, Unpaired m.1 ∧ Unpaired m.2) (fuel : Nat)
    (enough : members.length ≤ fuel) (read : OrderedMap Text Json) :
    readMembers (fuel + 2) room read
        (Text.join ", " ((member :: members).map memberText) ++ .char '\x7d' :: behind)
      = .ok (object (read.insertAll (textMembers (member :: members))).entries, behind) := by
  induction members generalizing member fuel read with
  | nil =>
    obtain ⟨name, content⟩ := unpaired member List.mem_cons_self
    rw [List.map_singleton, Text.join, List.intercalate_singleton,
      readMembers_member name content]
    rfl
  | cons next members ih =>
    obtain ⟨fuel, rfl⟩ := Nat.exists_eq_add_of_le' enough
    obtain ⟨⟨name, content⟩, unpaired⟩ := List.forall_mem_cons.mp unpaired
    rw [List.map_cons, List.map_cons, Text.join, List.intercalate_cons_cons, ← Text.join,
      List.append_assoc, List.append_assoc, ← List.map_cons, readMembers_member name content]
    have further := ih unpaired (fuel + members.length) (Nat.le_add_left ..)
      (read.insert member.1 (string member.2))
    obtain ⟨rest, begins⟩ := exists_join_memberText next members (.char '\x7d' :: behind)
    rw [begins] at further ⊢
    exact further

private theorem length_le_join (members : List (Text × Text)) :
    members.length ≤ (Text.join ", " (members.map memberText)).length := by
  induction members with
  | nil => exact Nat.zero_le _
  | cons member members ih =>
    have some : 1 ≤ (memberText member).length := Nat.le_add_left ..
    cases members with
    | nil => simpa [Text.join] using some
    | cons next members =>
      rw [List.map_cons, List.map_cons, Text.join, List.intercalate_cons_cons, ← Text.join,
        ← List.map_cons, List.length_append, List.length_append, List.length_cons]
      omega

/-- **An object of texts is read back.** -/
theorem readAll_objectText {member : Text × Text}
    (unpaired : ∀ m ∈ member :: members, Unpaired m.1 ∧ Unpaired m.2) :
    readAll (objectText (member :: members))
      = .ok (object (OrderedMap.ofList (textMembers (member :: members))).entries) := by
  have spelled : objectText (member :: members) = .char '\x7b' ::
      (Text.join ", " ((member :: members).map memberText) ++ [.char '\x7d']) := by
    simp only [objectText, List.append_assoc]
    rfl
  -- the fuel is twice the length, and every member is longer than that takes
  obtain ⟨fuel, enough⟩ : ∃ fuel, 2 * (objectText (member :: members)).length + 2 = fuel + 3 :=
    ⟨_, rfl⟩
  have le : members.length ≤ fuel := by
    have := length_le_join (member :: members)
    have := congrArg List.length spelled
    simp only [List.length_cons, List.length_append] at *
    omega
  have inside := readMembers_texts 989 [] unpaired fuel le {}
  obtain ⟨rest, begins⟩ := exists_join_memberText member members [.char '\x7d']
  rw [begins] at inside spelled
  have opened : readValue (fuel + 3) Limit.maxNesting (.char '\x7b' :: .char '"' :: rest)
      = readMembers (fuel + 2) 989 {} (.char '"' :: rest) := rfl
  rw [readAll, enough, spelled]
  · have noSpace : skipSpace (.char '\x7b' :: .char '"' :: rest)
        = .char '\x7b' :: .char '"' :: rest := rfl
    rw [noSpace, opened, inside]
    rfl
  · rw [spelled]
    exact nofun

private theorem ascii_objectText (members : List (Text × Text)) :
    ∀ c ∈ objectText members, c.toNat < 0x80 := by
  have opening : ∀ c ∈ ("\x7b" : Text), c.toNat < 0x80 := by decide
  have closing : ∀ c ∈ ("\x7d" : Text), c.toNat < 0x80 := by decide
  have comma : ∀ c ∈ (", " : Text), c.toNat < 0x80 := by decide
  have colon : ∀ c ∈ (": " : Text), c.toNat < 0x80 := by decide
  have inside : ∀ part ∈ members.map memberText, ∀ c ∈ part, c.toNat < 0x80 := by
    intro part member
    obtain ⟨⟨name, content⟩, -, rfl⟩ := List.mem_map.mp member
    have key := List.forall_mem_append.mpr ⟨ascii_quoted name, colon⟩
    exact List.forall_mem_append.mpr ⟨key, ascii_quoted content⟩
  have joined := Text.forall_mem_join comma inside
  exact List.forall_mem_append.mpr ⟨List.forall_mem_append.mpr ⟨opening, joined⟩, closing⟩

end Json

/-! ## §3 Requests -/

namespace Request

variable {request : Request}

/-- The members of a request. -/
def members : Request → List (Text × Text)
  | eval code => [("cmd", "eval"), ("code", code)]
  | reset => [("cmd", "reset")]

/-- The line that a client writes. -/
def line (request : Request) : List UInt8 := Utf8.ascii (Json.objectText request.members)

/-- A request whose code comes back as it is. -/
def Unpaired : Request → Prop
  | eval code => Json.Unpaired code
  | reset => True

private theorem unpaired_members (unpaired : request.Unpaired) :
    ∀ m ∈ request.members, Json.Unpaired m.1 ∧ Json.Unpaired m.2 := by
  have cmd : Json.Unpaired "cmd" := by decide
  have code : Json.Unpaired "code" := by decide
  cases request with
  | eval text =>
    have command : Json.Unpaired "eval" := by decide
    refine List.forall_mem_cons.mpr ⟨⟨cmd, command⟩, ?_⟩
    exact List.forall_mem_singleton.mpr ⟨code, unpaired⟩
  | reset =>
    have command : Json.Unpaired "reset" := by decide
    exact List.forall_mem_singleton.mpr ⟨cmd, command⟩

/-- **A request is read back from its line.** -/
theorem ofLine_line (unpaired : request.Unpaired) : ofLine request.line = .ok (.ok request) := by
  have members := unpaired_members unpaired
  have read : Json.readAll (Json.objectText request.members)
      = .ok (.object (OrderedMap.ofList (Json.textMembers request.members)).entries) := by
    cases request with
    | eval text => exact Json.readAll_objectText members
    | reset => exact Json.readAll_objectText members
  rw [ofLine, readLine, line, Utf8.decode_ascii (Json.ascii_objectText request.members)]
  dsimp only
  rw [read]
  cases request <;> rfl

/-- Only a limit leaves it open whether a line is a request. -/
theorem ofLine_eq_error_iff {bytes : List UInt8} {limit : Limit} : ofLine bytes = .error limit ↔
    ∃ text, Utf8.decode bytes = .ok text ∧ Json.readAll text = .error (.exceeded limit) := by
  unfold ofLine readLine
  cases Utf8.decode bytes with
  | error m => exact ⟨nofun, nofun⟩
  | ok text =>
    constructor
    · intro h
      refine ⟨text, rfl, ?_⟩
      dsimp only at h
      cases read : Json.readAll text with
      | ok json =>
        rw [read] at h
        cases h
      | error fault =>
        rw [read] at h
        cases fault <;> cases h
        rfl
    · rintro ⟨text', same, stopped⟩
      cases same
      dsimp only
      rw [stopped]
      rfl

end Request

/-! ## §4 Replies -/

namespace Reply

/-- The field of a reply that has the given name. -/
def field? (reply : Reply) (name : Text) : Option Field :=
  (reply.fields.find? fun field => field.1 = name).map Prod.snd

/-- What a client is told: the result if the reply is ok, and the error if it is not. -/
def told (reply : Reply) : Option Field :=
  if reply.field? "ok" = some (.flag true) then reply.field? "result" else reply.field? "error"

/-- The reply to a request whose code ends in the given way: a mistake has one, and so has a
value that can be shown. -/
def ofResult : Except Failure Value → Except Failure Reply
  | .ok v => (Failure.ofLimit (v.display false)).map .value
  | .error (.refused cause _) => .ok (.mistake cause)
  | .error failure => .error failure

end Reply

namespace Server

variable {s : Server} {line : List UInt8}

theorem handle_of_request {request : Request} (h : Request.ofLine line = .ok (.ok request)) :
    s.handle line = s.perform request := by
  simp only [handle, h]

theorem perform_eval (s : Server) (code : Text) :
    s.perform (.eval code) = (Reply.ofResult (s.session.eval code).1,
      { s with session := (s.session.eval code).2 }) := by
  rw [perform]
  dsimp only
  cases (s.session.eval code).1 with
  | ok v => rfl
  | error failure => cases failure <;> rfl

end Server

end PrefixCalc
