/-
Which block a fetch returns.

A session brings a block if the block is the first thing in it besides pauses
and filtered blocks, and comes in time (`Session.Brings`). A fetch returns that
block, whatever its number: the number that was asked for goes into the request
and is not looked at again (`fetch_runs_iff`). So the block has that number
where the node sends what it was asked for, and only there.
-/
import LedgerClient.Fetch
import LedgerClient.Proofs.Dialogue
import LedgerClient.Proofs.Except

namespace LedgerClient

open Protocol

/-- The block has a header with this number. -/
def Protocol.Block.HasNumber (b : Block) (n : UInt64) : Prop := b.header.map (·.number) = some n

instance (b : Block) (n : UInt64) : Decidable (b.HasNumber n) :=
  inferInstanceAs (Decidable (b.header.map (·.number) = some n))

/-! ## Sessions -/

namespace Session

/-- The block is the first in the session, and comes while there is time left. -/
inductive Brings : (left : Duration) → Session → Block → Prop where
  | block {left : Duration} (b : Block) (rest : Session) : Brings left (.item (.ok (.block b)) rest) b
  | pause {left time : Duration} {rest : Session} {b : Block} (ht : time ≤ left) (h : Brings (left - time) rest b) :
    Brings left (.pause time rest) b
  | filteredBlock {left : Duration} (f : FilteredBlock) {rest : Session} {b : Block} (h : Brings left rest b) :
    Brings left (.item (.ok (.filteredBlock f)) rest) b

theorem Brings.firstBlockWithin {left : Duration} {s : Session} {b : Block} (h : Brings left s b)
    (limit : Duration) : s.firstBlockWithin limit left = .ok b := by
  induction h with
  | block b rest => rfl
  | pause ht h ih =>
    unfold Session.firstBlockWithin
    rw [if_pos ht]
    exact ih
  | filteredBlock f h ih => exact ih

theorem brings_of_firstBlockWithin {limit : Duration} {b : Block} (s : Session) : ∀ {left : Duration},
    s.firstBlockWithin limit left = .ok b → Brings left s b := by
  induction s with
  | silence | finish =>
    intro left h
    cases h
  | pause time rest ih =>
    intro left h
    unfold Session.firstBlockWithin at h
    split at h
    next ht => exact .pause ht (ih h)
    next => cases h
  | item d rest ih =>
    intro left h
    unfold Session.firstBlockWithin at h
    split at h
    next => cases h
    next =>
      cases h
      exact .block b rest
    next => cases h
    next f => exact .filteredBlock f (ih h)

theorem Brings.unique {limit : Duration} {s : Session} {b b' : Block} (h : Brings limit s b)
    (h' : Brings limit s b') : b = b' :=
  Except.ok.inj ((h.firstBlockWithin limit).symm.trans (h'.firstBlockWithin limit))

theorem firstBlock_eq_ok_iff {limit : Duration} {s : Session} {b : Block} :
    s.firstBlock limit = .ok b ↔ Brings limit s b :=
  ⟨brings_of_firstBlockWithin s, fun h => h.firstBlockWithin limit⟩

end Session

/-! ## Fetches -/

namespace BlockReader

variable {r : BlockReader} {source : Node} {channelId : String} {b : Block} {log : List Exchange}

/-- The log of one fetch. -/
def session (r : BlockReader) (source : Node) (channelId : String) (start stop : SeekPosition) (stamp : Stamp)
    (answer : Except ClientError Session) : List Exchange :=
  [.stamp stamp, .seek source (r.signer.seek stamp channelId start stop) answer]

/-- A fetch asks in one session and ends as that does. -/
theorem runs_fetch_iff {start stop : SeekPosition} {result : Except ClientError Block} :
    (r.fetch source channelId start stop).Runs result log ↔
      ∃ stamp answer, log = r.session source channelId start stop stamp answer ∧
        result = answer >>= fun session => session.firstBlock r.limit := by
  simp only [fetch, Operation.runs_bind_iff, Operation.runs_stamp_iff, Operation.runs_seek_iff,
    Operation.runs_ofExcept_iff, session]
  constructor
  · rintro (⟨_, ⟨_, ⟨⟩, -⟩, -⟩ | ⟨stamp, _, _, ⟨_, ⟨⟩, rfl⟩, hseek, rfl⟩)
    rcases hseek with ⟨e, rfl, rfl⟩ | ⟨session, _, _, rfl, ⟨rfl, rfl⟩, rfl⟩
    · exact ⟨stamp, .error e, rfl, rfl⟩
    · exact ⟨stamp, .ok session, rfl, rfl⟩
  · rintro ⟨stamp, answer | session, rfl, rfl⟩
    · exact .inr ⟨stamp, _, _, ⟨stamp, rfl, rfl⟩, .inl ⟨_, rfl, rfl⟩, rfl⟩
    · exact .inr ⟨stamp, _, _, ⟨stamp, rfl, rfl⟩, .inr ⟨session, _, _, rfl, ⟨rfl, rfl⟩, rfl⟩, rfl⟩

/-- A fetch returns the block that its session brings. -/
theorem fetch_runs_iff {start stop : SeekPosition} :
    (r.fetch source channelId start stop).Runs (.ok b) log ↔
      ∃ stamp session, log = [.stamp stamp, .seek source (r.signer.seek stamp channelId start stop) (.ok session)] ∧
        session.Brings r.limit b := by
  rw [runs_fetch_iff]
  constructor
  · rintro ⟨stamp, answer, rfl, hb⟩
    obtain ⟨session, rfl, hfirst⟩ := bind_eq_ok_iff.1 hb.symm
    exact ⟨stamp, session, rfl, Session.firstBlock_eq_ok_iff.1 hfirst⟩
  · rintro ⟨stamp, session, rfl, hb⟩
    exact ⟨stamp, .ok session, rfl, (Session.firstBlock_eq_ok_iff.2 hb).symm⟩

/-- The log of a fetch of block `n` that returned `b`: the one session it asked for brings `b`, so
the number is right if and only if the session brings no block of another number. -/
def Fetched (r : BlockReader) (source : Node) (channelId : String) (n : UInt64) (b : Block)
    (log : List Exchange) : Prop :=
  ∃ stamp session,
    log = [.stamp stamp, .seek source (r.signer.seek stamp channelId (.specified n) (.specified n)) (.ok session)] ∧
    session.Brings r.limit b ∧
    (b.HasNumber n ↔ ∀ b', session.Brings r.limit b' → b'.HasNumber n)

theorem fetched_of_block {n : UInt64} (h : (r.block source channelId n).Runs (.ok b) log) :
    r.Fetched source channelId n b log := by
  obtain ⟨stamp, session, hlog, hb⟩ := fetch_runs_iff.1 h
  refine ⟨stamp, session, hlog, hb, fun hn b' hb' => ?_, fun hall => hall b hb⟩
  rwa [← hb.unique hb']

/-- **Fetching by number.** The first block of a channel, a block of any number and the block with
the configuration in force are each the first block that the node sends in answer to a request for
that number. Nothing else ties the number of the block to the number that was asked for. -/
theorem fetches_first_block (r : BlockReader) (source : Node) (channelId : String) :
    (∀ n b log, (r.block source channelId n).Runs (.ok b) log → r.Fetched source channelId n b log) ∧
    (∀ b log, (r.genesisBlock source channelId).Runs (.ok b) log → r.Fetched source channelId 0 b log) ∧
    (∀ b log, (r.lastConfigBlock source channelId).Runs (.ok b) log →
      ∃ tip n before after, (r.newestBlock source channelId).Runs (.ok tip) before ∧
        Block.lastConfigIndex tip = .ok n ∧ log = before ++ after ∧ r.Fetched source channelId n b after) := by
  refine ⟨fun n b log h => fetched_of_block h, fun b log h => fetched_of_block h, fun b log h => ?_⟩
  rcases h.of_bind with ⟨e, -, he⟩ | ⟨tip, before, after, htip, hrest, rfl⟩
  · cases he
  rcases hrest.of_ofExcept_bind with ⟨e, -, he, -⟩ | ⟨n, hn, hblock⟩
  · cases he
  exact ⟨tip, n, before, after, htip, (mapError_eq_ok_iff.1 hn), rfl, fetched_of_block hblock⟩

def sampleReader : BlockReader where
  signer := { identity := { certificate := [1], mspId := "Org1MSP", key := ⟨4, by decide, by decide⟩ } }
  limit := .ofSecs 5

def blockNumbered (n : UInt64) : Block := { header := some { number := n } }

/-- Asked for block 5, a node sends block 3 before it. -/
def strayFirst : Session :=
  .item (.ok (.block (blockNumbered 3))) (.item (.ok (.block (blockNumbered 5))) .finish)

theorem block_runs_strayFirst : (sampleReader.block (.orderer "orderer0") "mychannel" 5).Runs
    (.ok (blockNumbered 3)) [.stamp ⟨[7], {}⟩, .seek (.orderer "orderer0")
      (sampleReader.signer.seek ⟨[7], {}⟩ "mychannel" (.specified 5) (.specified 5)) (.ok strayFirst)] :=
  fetch_runs_iff.2 ⟨⟨[7], {}⟩, strayFirst, rfl, .block _ _⟩

theorem fetches_first_block_stray : ∃ log,
    (sampleReader.block (.orderer "orderer0") "mychannel" 5).Runs (.ok (blockNumbered 3)) log ∧
      sampleReader.Fetched (.orderer "orderer0") "mychannel" 5 (blockNumbered 3) log :=
  ⟨_, block_runs_strayFirst, (fetches_first_block sampleReader (.orderer "orderer0") "mychannel").1 5 _ _
    block_runs_strayFirst⟩

/-- The block that is returned need not be the one that was asked for. -/
theorem block_of_another_number : ∃ log,
    (sampleReader.block (.orderer "orderer0") "mychannel" 5).Runs (.ok (blockNumbered 3)) log ∧
      ¬ (blockNumbered 3).HasNumber 5 :=
  ⟨_, block_runs_strayFirst, by decide⟩

end BlockReader

end LedgerClient
