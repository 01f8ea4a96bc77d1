import Mathlib.Data.List.Forall2
import YieldLadder.Harvester.Harvester
import YieldLadder.Reconcile.Core

/-! # The check of the harvest splits

For every `harvest` event the job asks that bounty and remainder add up to what was
harvested, and that a harvest of nothing paid nothing. The harvester computes the
bounty; the check takes it from the event, so whatever adds up passes.
-/
namespace YieldLadder
open Foundation

namespace Harvester

/-- Some harvest that goes through emits these three amounts. -/
def Emits (harvested bounty remainder : ℤ) : Prop :=
  ∃ (rule : TokenRule) (self : Address) (env : Env) (w : World) (caller : Address) (r : World × Reply),
    harvest rule self env w caller = .ok r ∧ ⟨caller, harvested, bounty, remainder⟩ ∈ r.2.events

variable {rule : TokenRule} {self caller : Address} {env : Env} {w : World} {r : World × Reply}
variable {e : Event} {harvested bounty remainder : ℤ}

theorem split_of_mem (h : harvest rule self env w caller = .ok r) (he : e ∈ r.2.events)
    (h0 : 0 ≤ e.harvested) : InI128 (e.harvested * BOUNTY_BPS) ∧ e.bounty = bountyOf e.harvested ∧
      e.remainder = e.harvested - bountyOf e.harvested := by
  simp only [harvest, bind_eq_ok] at h
  obtain ⟨_, _, i, _, _, _, h⟩ := h
  split at h
  · obtain rfl := pure_eq_ok.mp h
    obtain rfl := List.mem_singleton.mp he
    exact ⟨(by decide : InI128 (0 * BOUNTY_BPS)), rfl, rfl⟩
  · simp only [bind_eq_ok, expect_eq_ok, checkedMul_eq_some, divI128_eq_ok, subI128_eq_ok, pure_eq_ok] at h
    obtain ⟨_, ⟨hfits, rfl⟩, _, ⟨_, _, rfl⟩, _, ⟨_, rfl⟩, _, _, _, _, rfl⟩ := h
    obtain rfl := List.mem_singleton.mp he
    have hbounty := bounty_eq h0
    exact ⟨hfits, hbounty, congrArg (_ - ·) hbounty⟩

/-- Account 0 harvests what the harvester, contract 0, holds of the token, contract 1. -/
theorem emits_iff (h0 : 0 ≤ harvested) : Emits harvested bounty remainder ↔
    InI128 (harvested * BOUNTY_BPS) ∧ bounty = bountyOf harvested ∧
      remainder = harvested - bountyOf harvested := by
  constructor
  · rintro ⟨_, _, _, _, _, r, h, he⟩
    exact split_of_mem h he h0
  · rintro ⟨hfits, rfl, rfl⟩
    have haccepts : Accepts (.contract 0) ⟨[0], none, 0⟩
        ⟨some ⟨.contract 2, .contract 1, 0, 0⟩, fun _ _ => harvested⟩ ⟨.contract 2, .contract 1, 0, 0⟩
        (.account 0) := ⟨by decide, Nat.le_of_eq rfl, hfits⟩
    exact ⟨.host, .contract 0, _, _, .account 0, _, haccepts.harvest rfl (by decide) h0,
      List.mem_singleton_self _⟩

end Harvester

namespace Reconcile
open Harvester

structure HarvestRecord where
  ledger : ℕ
  txHash : String
  harvested : ℤ
  bounty : ℤ
  remainder : ℤ
  deriving DecidableEq, Repr

def reconcileHarvestSplits (records : List HarvestRecord) : List Mismatch :=
  records.filterMap fun r =>
    if r.harvested = 0 then
      if r.bounty ≠ 0 ∨ r.remainder ≠ 0 then
        some {
          kind := .harvestSplit
          tier := none
          asset := none
          user := none
          expected := "bounty=0, remainder=0"
          actual := "bounty=" ++ toString r.bounty ++ ", remainder=" ++ toString r.remainder
          detail := "Zero-yield harvest at ledger " ++ toString r.ledger ++ " (tx " ++ r.txHash ++
            ") paid out a non-zero bounty/remainder." }
      else none
    else
      let sum := r.bounty + r.remainder
      if sum ≠ r.harvested then
        some {
          kind := .harvestSplit
          tier := none
          asset := none
          user := none
          expected := toString r.harvested
          actual := toString sum
          detail := "Harvest at ledger " ++ toString r.ledger ++ " (tx " ++ r.txHash ++ "): bounty(" ++
            toString r.bounty ++ ") + remainder(" ++ toString r.remainder ++ ") != harvested(" ++
            toString r.harvested ++ ")." }
      else none

/-- The parts add up to the whole, and nothing was paid of nothing. -/
def HarvestRecord.Adds (r : HarvestRecord) : Prop :=
  r.bounty + r.remainder = r.harvested ∧ (r.harvested = 0 → r.bounty = 0)

instance (r : HarvestRecord) : Decidable r.Adds := inferInstanceAs (Decidable (_ ∧ _))

/-- The split that the harvester computes. -/
def HarvestRecord.Genuine (r : HarvestRecord) : Prop :=
  r.bounty = bountyOf r.harvested ∧ r.remainder = r.harvested - bountyOf r.harvested

/-- The mismatch is about the split of the record, which it names by ledger and transaction. -/
structure Reports (r : HarvestRecord) (m : Mismatch) : Prop where
  kind : m.kind = .harvestSplit
  named : ∃ before after, m.detail = before ++ toString r.ledger ++ " (tx " ++ r.txHash ++ after

variable {r : HarvestRecord} {records : List HarvestRecord}

theorem forall₂_filterMap {α β : Type} {R : α → β → Prop} {p : α → Prop} [DecidablePred p]
    {f : α → Option β} (hsome : ∀ a, p a → ∃ b, f a = some b ∧ R a b) (hnone : ∀ a, ¬p a → f a = none)
    (l : List α) : List.Forall₂ R (l.filter p) (l.filterMap f) := by
  induction l with
  | nil => exact .nil
  | cons a l ih =>
    by_cases ha : p a
    · obtain ⟨b, hb, hR⟩ := hsome a ha
      rw [List.filter_cons_of_pos (p := (decide <| p ·)) (decide_eq_true ha), List.filterMap_cons_some hb]
      exact .cons hR ih
    · rw [List.filter_cons_of_neg (p := (decide <| p ·)) (by simpa using ha), List.filterMap_cons_none (hnone a ha)]
      exact ih

theorem HarvestRecord.Genuine.adds (h : r.Genuine) : r.Adds := by
  obtain ⟨hbounty, hremainder⟩ := h
  refine ⟨by rw [hbounty, hremainder, add_sub_cancel], fun hzero => ?_⟩
  rw [hbounty, hzero]
  rfl

theorem HarvestRecord.adds_iff (h0 : 0 ≤ r.harvested) : r.Adds ↔
    r.Genuine ∨ 0 < r.harvested ∧ r.bounty + r.remainder = r.harvested ∧ r.bounty ≠ bountyOf r.harvested := by
  constructor
  · rintro ⟨hsum, hzero⟩
    have hremainder : r.remainder = r.harvested - r.bounty := eq_sub_of_add_eq' hsum
    by_cases hbounty : r.bounty = bountyOf r.harvested
    · exact .inl ⟨hbounty, hbounty ▸ hremainder⟩
    · rcases h0.eq_or_lt with hnothing | hpos
      · refine absurd ?_ hbounty
        rw [hzero hnothing.symm, ← hnothing]
        rfl
      · exact .inr ⟨hpos, hsum, hbounty⟩
  · rintro (hgenuine | ⟨hpos, hsum, _⟩)
    · exact hgenuine.adds
    · exact ⟨hsum, fun hzero => absurd hzero hpos.ne'⟩

theorem HarvestRecord.genuine_of_emits (h0 : 0 ≤ r.harvested) (h : Emits r.harvested r.bounty r.remainder) :
    r.Genuine := ((emits_iff h0).mp h).2

theorem forall₂_reports (records : List HarvestRecord) :
    List.Forall₂ Reports (records.filter fun r => ¬r.Adds) (reconcileHarvestSplits records) := by
  refine forall₂_filterMap (fun r hadds => ?_) (fun r hadds => ?_) records
  · by_cases hzero : r.harvested = 0
    · have hpaid : r.bounty ≠ 0 ∨ r.remainder ≠ 0 := by
        unfold HarvestRecord.Adds at hadds
        omega
      refine ⟨_, (if_pos hzero).trans (if_pos hpaid), rfl, ?_⟩
      exact ⟨"Zero-yield harvest at ledger ", ") paid out a non-zero bounty/remainder.", rfl⟩
    · have hsum : r.bounty + r.remainder ≠ r.harvested := by
        unfold HarvestRecord.Adds at hadds
        omega
      refine ⟨_, (if_neg hzero).trans (if_pos hsum), rfl, ?_⟩
      refine ⟨"Harvest at ledger ", "): bounty(" ++ toString r.bounty ++ ") + remainder(" ++ toString r.remainder ++
        ") != harvested(" ++ toString r.harvested ++ ").", ?_⟩
      simp only [String.append_assoc]
  · obtain ⟨hsum, hnothing⟩ := not_not.mp hadds
    by_cases hzero : r.harvested = 0
    · have hunpaid : ¬(r.bounty ≠ 0 ∨ r.remainder ≠ 0) := by
        have hbounty := hnothing hzero
        omega
      exact (if_pos hzero).trans (if_neg hunpaid)
    · exact (if_neg hzero).trans (if_neg (not_not.mpr hsum))

/-- Every record that does not add up is reported, in the order of the records, and no other is. What the harvester
emits adds up; what adds up otherwise is a harvest of something with another bounty. -/
theorem reconcileHarvestSplits_reports (h0 : ∀ r ∈ records, 0 ≤ r.harvested) :
    List.Forall₂ Reports (records.filter fun r => ¬r.Adds) (reconcileHarvestSplits records) ∧
      ∀ r ∈ records, (Emits r.harvested r.bounty r.remainder → r.Genuine ∧ r.Adds) ∧
        (r.Adds ↔ r.Genuine ∨
          0 < r.harvested ∧ r.bounty + r.remainder = r.harvested ∧ r.bounty ≠ bountyOf r.harvested) := by
  refine ⟨forall₂_reports records, fun r hr => ⟨fun hemits => ?_, HarvestRecord.adds_iff (h0 r hr)⟩⟩
  have hgenuine := HarvestRecord.genuine_of_emits (h0 r hr) hemits
  exact ⟨hgenuine, hgenuine.adds⟩

/-- A harvest of 10,000 with a bounty of half of it. -/
def overpaid : HarvestRecord := ⟨100, "abc", 10_000, 5_000, 5_000⟩

/-- One split of three is off by 990, one as computed and one overpaid: the first is reported. -/
theorem reconcileHarvestSplits_reports_short :
    List.Forall₂ Reports [⟨101, "def", 10_000, 10, 9_000⟩]
      (reconcileHarvestSplits [⟨101, "def", 10_000, 10, 9_000⟩, ⟨102, "ghi", 10_000, 10, 9_990⟩, overpaid]) := by
  have h0 : ∀ r ∈ [⟨101, "def", 10_000, 10, 9_000⟩, ⟨102, "ghi", 10_000, 10, 9_990⟩, overpaid],
      0 ≤ r.harvested := by decide
  exact (reconcileHarvestSplits_reports h0).1

/-- The overpaid split is none that the harvester emits, and is not reported. -/
theorem overpaid_unreported : reconcileHarvestSplits [overpaid] = [] ∧ 0 ≤ overpaid.harvested ∧
    ¬overpaid.Genuine ∧ ¬Emits overpaid.harvested overpaid.bounty overpaid.remainder := by
  have hbounty : ¬overpaid.Genuine := fun h => absurd h.1 (by decide)
  exact ⟨by decide, by decide, hbounty, fun h => hbounty (HarvestRecord.genuine_of_emits (by decide) h)⟩

end Reconcile
end YieldLadder
