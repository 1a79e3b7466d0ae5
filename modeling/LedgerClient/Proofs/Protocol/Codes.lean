/-
Codes and names of the protocol, read back.

The members of an enumeration are looked up in the list of all of them, by a
label that no two have in common, their code or their name. So a member is found
by its own label and by no other (`find?_eq_some_iff_of_label`).
-/
import LedgerClient.Protocol.Codes

namespace LedgerClient.Protocol

theorem find?_eq_some_iff_of_label {α β : Type} [BEq β] [LawfulBEq β] {all : List α} {label : α → β}
    (hown : ∀ a, all.find? (label · == label a) = some a) {l : β} {a : α} :
    all.find? (label · == l) = some a ↔ l = label a := by
  constructor
  · intro h
    have hlabel := List.find?_some h
    exact (eq_of_beq hlabel).symm
  · intro h
    rw [h]
    exact hown a

theorem HeaderType.ofCode?_eq_some_iff {code : Int32} {type : HeaderType} :
    ofCode? code = some type ↔ code = type.code :=
  find?_eq_some_iff_of_label fun type => by cases type <;> rfl

theorem Role.ofCode?_eq_some_iff {code : Int32} {r : Role} : ofCode? code = some r ↔ code = r.code :=
  find?_eq_some_iff_of_label fun r => by cases r <;> rfl

theorem Role.ofPolicyName?_eq_some_iff {name : String} {r : Role} :
    ofPolicyName? name = some r ↔ name = r.policyName :=
  find?_eq_some_iff_of_label fun r => by cases r <;> rfl

namespace ValidationCode

theorem ofCode?_eq_some_iff {code : Int32} {v : ValidationCode} : ofCode? code = some v ↔ code = v.code :=
  find?_eq_some_iff_of_label fun v => by cases v <;> rfl

/-- No other byte has the name of a valid transaction. -/
theorem nameOfByte_eq_valid_iff {b : UInt8} : nameOfByte b = valid.name ↔ b = 0 := by
  constructor
  · intro h
    unfold nameOfByte at h
    split at h
    next v hv =>
      have hvalid : v = valid := by cases v <;> first | rfl | exact absurd h (by decide)
      have hcode : b.toUInt32.toInt32 = valid.code := hvalid ▸ ofCode?_eq_some_iff.1 hv
      exact UInt8.toUInt32_inj.1 (congrArg Int32.toUInt32 hcode)
    next => exact absurd h (by decide)
  · intro h
    subst h
    rfl

end ValidationCode

end LedgerClient.Protocol
