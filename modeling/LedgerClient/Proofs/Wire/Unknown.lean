/-
Fields that a message does not declare.

A record with an undeclared number is passed over whole, whatever its wire type,
so what follows it is read as if it were not there. Its depth is the only limit:
a record nested deeper than a reader goes makes the input unreadable, declared or
not (`decode?_deep`). Both need the record to stand between whole records, as a
reader of the type takes them apart: under the number of a map that is a chunk,
with any wire type (`decode?_respelled`).
-/
import LedgerClient.Wire.Decode
import LedgerClient.Proofs.Wire.Spelling

namespace LedgerClient.Wire.Message

open Record (Spells SpellsAll unkeyed)

variable {enter : Shape → Message → Bytes → Option Message} {budget : Nat} {s : Shape} {r : Record}

/-! ## One record -/

theorem putRecord_of_unknown (hr : s.field? r.tag = none) (hd : r.depth ≤ budget) (m : Message) :
    putRecord enter budget s m r = some m := by
  simp only [putRecord, hr]
  exact if_pos hd

/-- Only groups nest, and no field holds a group. -/
theorem putRecord_of_deep (hb : 0 < budget) (hd : budget < r.depth) (m : Message) :
    putRecord enter budget s m r = none := by
  cases r with
  | varint | fixed64 | chunk | fixed32 => exact absurd hd (Nat.not_lt.2 hb)
  | group tag members =>
    unfold putRecord
    split
    · exact if_neg (Nat.not_le.2 hd)
    · split
      next kind _ => cases kind <;> rfl
      next he => cases he
      next => rfl

/-! ## Among other records -/

theorem foldlM_unknown (hr : s.field? r.tag = none) (hd : r.depth ≤ budget) (before after : List Record)
    (m : Message) : (before ++ r :: after).foldlM (putRecord enter budget s) m =
      (before ++ after).foldlM (putRecord enter budget s) m := by
  rw [List.foldlM_append, List.foldlM_append]
  refine Option.bind_congr fun m' _ => ?_
  rw [List.foldlM_cons, putRecord_of_unknown hr hd]
  rfl

theorem foldlM_deep (hb : 0 < budget) (hd : budget < r.depth) (before after : List Record) (m : Message) :
    (before ++ r :: after).foldlM (putRecord enter budget s) m = none := by
  rw [List.foldlM_append]
  refine Option.bind_eq_none_iff.2 fun m' _ => ?_
  rw [List.foldlM_cons, putRecord_of_deep hb hd]
  rfl

/-! ## In a message -/

theorem decode?_eq (t : MessageType) (bytes : Bytes) : decode? t bytes =
    (Record.readAll (Shape.type t).isKeyed bytes).bind fun rs =>
      rs.foldlM (putRecord (merge (nestingLimit - 1)) nestingLimit (.type t)) [] := rfl

variable {t : MessageType} {rs : List Record} {x u : Bytes}

/-- What is read when a record stands behind whole records. -/
theorem decode?_append (hx : SpellsAll (Shape.type t).isKeyed rs x) (hu : Spells (Shape.type t).isKeyed r u)
    (y : Bytes) : decode? t (x ++ u ++ y) =
      (Record.readAll (Shape.type t).isKeyed y).bind fun rs' =>
        (rs ++ r :: rs').foldlM (putRecord (merge (nestingLimit - 1)) nestingLimit (.type t)) [] := by
  have hone : SpellsAll (Shape.type t).isKeyed [r] (u ++ []) := .cons hu .nil
  rw [List.append_nil] at hone
  rw [decode?_eq, List.append_assoc, hx.readAll_append, hone.readAll_append, Option.map_map, Option.bind_map]
  rfl

/-- It does not matter how a record is spelled. -/
theorem decode?_respelled {u' : Bytes} (hx : SpellsAll (Shape.type t).isKeyed rs x)
    (hu : Spells (Shape.type t).isKeyed r u) (hu' : Spells (Shape.type t).isKeyed r u') (y : Bytes) :
    decode? t (x ++ u ++ y) = decode? t (x ++ u' ++ y) := by
  rw [decode?_append hx hu, decode?_append hx hu']

/-- The entry of a map is read with any of the six wire types in its key. -/
example : (List.range 8).map (fun wireType => (decode? .capabilities [8 + wireType.toUInt8, 2, 18, 0]).isSome) =
    [true, true, true, true, true, true, false, false] := by decide

/-- No record is read that is nested too deep, declared or not. -/
theorem decode?_deep (hx : SpellsAll (Shape.type t).isKeyed rs x) (hu : Spells (Shape.type t).isKeyed r u)
    (hd : nestingLimit < r.depth) (y : Bytes) : decode? t (x ++ u ++ y) = none := by
  rw [decode?_append hx hu]
  exact Option.bind_eq_none_iff.2 fun rs' _ => foldlM_deep (by decide) hd rs rs' []

/-- **Unknown fields.** Behind any whole records a record with an undeclared number, of any of the
five kinds and spelled in any way, is passed over: the message is read as it is without the record.
A record that is nested too deep makes the input unreadable, and nothing else is read in its place. -/
theorem decode?_unknown (t : MessageType) {rs : List Record} {x u : Bytes}
    (hx : SpellsAll (Shape.type t).isKeyed rs x) (hu : Spells unkeyed r u)
    (hr : (Shape.type t).field? r.tag = none) (y : Bytes) :
    (r.depth ≤ nestingLimit → decode? t (x ++ u ++ y) = decode? t (x ++ y)) ∧
      (nestingLimit < r.depth → decode? t (x ++ u ++ y) = none) := by
  have hspells : Spells (Shape.type t).isKeyed r u := hu.of_unkeyed (by simp only [Shape.isKeyed, hr])
  constructor
  · intro hd
    rw [decode?_append hx hspells, decode?_eq, hx.readAll_append, Option.bind_map]
    exact Option.bind_congr fun rs' _ => foldlM_unknown hr hd rs rs' []
  · intro hd
    exact decode?_deep hx hspells hd y

/-- A group of number 7 around `n` more of them, one inside the other. -/
def nested : Nat → Record
  | 0 => .group 7 []
  | n + 1 => .group 7 [nested n]

def nestedBytes : Nat → Bytes
  | 0 => [0x3b, 0x3c]
  | n + 1 => [0x3b] ++ nestedBytes n ++ [0x3c]

theorem spells_nested (n : Nat) : Spells unkeyed (nested n) (nestedBytes n) := by
  have hopening : Record.Starts unkeyed 7 3 [0x3b] :=
    ⟨by decide, by decide, by decide, 0x3b, @Varint.Groups.last 9 0x3b (by decide) nofun, rfl⟩
  have hclosing : Record.IsKey 7 4 [0x3c] :=
    ⟨by decide, by decide, by decide, 0x3c, @Varint.Groups.last 9 0x3c (by decide) nofun, rfl⟩
  induction n with
  | zero => exact .group hopening .nil hclosing
  | succ n ih =>
    have hbody : SpellsAll unkeyed [nested n] (nestedBytes n ++ []) := .cons ih .nil
    rw [List.append_nil] at hbody
    exact .group hopening hbody hclosing

theorem depth_nested (n : Nat) : (nested n).depth = n + 1 := by
  induction n with
  | zero => rfl
  | succ n ih =>
    simp only [nested, Record.depth, Record.depthAll, ih]
    omega

/-- Groups of an envelope, which declares none, at the limit and one level below it. -/
theorem decode?_unknown_nested :
    decode? .envelope [10, 1, 97, 18, 1, 98] = some [.scalar 1 (.bytes [97]), .scalar 2 (.bytes [98])] ∧
      decode? .envelope ([10, 1, 97] ++ nestedBytes 99 ++ [18, 1, 98]) =
        some [.scalar 1 (.bytes [97]), .scalar 2 (.bytes [98])] ∧
      decode? .envelope ([10, 1, 97] ++ nestedBytes 100 ++ [18, 1, 98]) = none :=
  have hx : SpellsAll (Shape.type .envelope).isKeyed [.chunk 1 [97]] [10, 1, 97] := Record.readAll_eq_some_iff.1 rfl
  have hread : decode? .envelope [10, 1, 97, 18, 1, 98] =
      some [.scalar 1 (.bytes [97]), .scalar 2 (.bytes [98])] := by decide
  have hpassed := (decode?_unknown .envelope hx (spells_nested 99) rfl [18, 1, 98]).1 (Nat.le_of_eq (depth_nested 99))
  have hdeep := (decode?_unknown .envelope hx (spells_nested 100) rfl [18, 1, 98]).2 (Nat.le_of_eq (depth_nested 100).symm)
  ⟨hread, hpassed.trans hread, hdeep⟩

end LedgerClient.Wire.Message
