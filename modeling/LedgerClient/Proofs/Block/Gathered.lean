/-
What the entries of a block give to its full view, one after the other.

The view is made entry by entry: each step (`Gathered.add`) looks at one entry
and at what those before it have given. What is known of all entries is known
by induction on them, last entry first (`gather_concat`). So the transactions
are the ones that the entries are shown as, in order (`transactions_gather`),
and the time is the one in the first entry (`firstTxTime_gather`).
-/
import LedgerClient.Block.Decode
import LedgerClient.Proofs.Block.Position
import Mathlib.Data.List.Induction

namespace LedgerClient.Block

open Protocol

variable {codes : Bytes}

/-! ## One entry -/

namespace Gathered

variable (g : Gathered) (i : Nat) (entry : Bytes)

theorem transactions_add :
    (g.add codes i entry).transactions = g.transactions ++ (shown? codes i entry).toList := by
  unfold add
  cases shown? codes i entry with
  | none => split <;> simp
  | some t => split <;> simp

theorem channelId_add :
    (g.add codes i entry).channelId = ((shown? codes i entry).map (·.header.channelId)).getD g.channelId := by
  unfold add
  cases shown? codes i entry with
  | none => split <;> rfl
  | some t => rfl

theorem config_add : (g.add codes i entry).config =
    (((shown? codes i entry).bind (·.config?)).map (·.config)).or g.config := by
  unfold add
  cases shown? codes i entry with
  | none => split <;> rfl
  | some t => split <;> rfl

theorem firstTxTime_add : (g.add codes i entry).firstTxTime =
    if i = 0 then (Entry.ofBytes? entry).toOption.bind (·.channelHeader.timestamp) else g.firstTxTime := by
  unfold add
  cases shown? codes i entry with
  | none => split <;> rfl
  | some t => split <;> rfl

end Gathered

/-! ## All entries -/

theorem gather_concat (codes : Bytes) (entries : List Bytes) (entry : Bytes) :
    gather codes (entries ++ [entry]) = (gather codes entries).add codes entries.length entry := by
  rw [gather, List.zipIdx_append, List.foldl_append, Nat.zero_add]
  rfl

theorem transactions_gather (codes : Bytes) (entries : List Bytes) :
    (gather codes entries).transactions = collect (shown? codes) entries := by
  induction entries using List.reverseRecOn with
  | nil => rfl
  | append_singleton entries entry ih =>
    rw [gather_concat, Gathered.transactions_add, ih, collect_concat]

theorem firstTxTime_gather (codes : Bytes) (entries : List Bytes) : (gather codes entries).firstTxTime =
    (entries[0]?.bind fun entry => (Entry.ofBytes? entry).toOption).bind (·.channelHeader.timestamp) := by
  induction entries using List.reverseRecOn with
  | nil => rfl
  | append_singleton entries entry ih =>
    rw [gather_concat, Gathered.firstTxTime_add, ih]
    cases entries with
    | nil => rfl
    | cons first entries => rfl

end LedgerClient.Block
