import YieldLadder.Foundation.Machine
import YieldLadder.Strategy.StrategyVault

/-! # The allocation table

The admin fills the table one pool at a time and in any order. A target is checked
against the allowlist, the cap and the sum of the other entries, always from above:
a negative target passes every check. The table stays sound in exactly the runs in
which no such target is set.
-/
namespace YieldLadder.StrategyVault
open Foundation

/-- Every entry is for a listed pool and between nothing and 35 %, and they add up to at most all. -/
structure Tabled (i : Instance) : Prop where
  listed : ∀ e ∈ i.allocations.entries, i.poolAllowlist.getD e.1 false = true
  nonneg : ∀ e ∈ i.allocations.entries, 0 ≤ e.2
  capped : ∀ e ∈ i.allocations.entries, e.2 ≤ MAX_ALLOC_BPS
  total : (i.allocations.entries.map Prod.snd).sum ≤ BPS_DENOM

def TableSound (w : World) : Prop := ∀ i, w.inst = some i → Tabled i

def perform (rule : TokenRule) (vault : Address) (w : World) (c : Env × Call) :
    Except Fault (World × Value) :=
  step rule vault c.1 w c.2

def Typed (call : Call) : Prop := ∀ pool targetBps, call = .setAllocation pool targetBps → InI128 targetBps

/-- The admin sets a negative target for a listed pool. -/
def Undershoots (w : World) (c : Env × Call) : Prop :=
  ∃ i pool targetBps, w.inst = some i ∧ c.2 = .setAllocation pool targetBps ∧
    c.1.Authorized i.admin ∧ i.poolAllowlist.getD pool false = true ∧ targetBps < 0

/-- What the calls for the admin write. -/
inductive Governs (i : Instance) : Call → Instance → Prop
  | setHarvester (harvester : Address) :
      Governs i (.setHarvester harvester) { i with harvester := some harvester }
  | registerTierVault (vault : Address) :
      Governs i (.registerTierVault vault) { i with tierVaults := i.tierVaults.set vault true }
  | allowPool (pool : Address) :
      Governs i (.allowPool pool) { i with poolAllowlist := i.poolAllowlist.set pool true }
  | setBufferBps (bps : ℤ) (h : 0 ≤ bps ∧ bps ≤ BPS_DENOM) :
      Governs i (.setBufferBps bps) { i with bufferBps := bps }
  | setAllocation (pool : Address) (targetBps others : ℤ)
      (hlisted : i.poolAllowlist.getD pool false = true) (hcap : targetBps ≤ MAX_ALLOC_BPS)
      (hothers : othersTotal pool i.allocations.entries = .ok others)
      (hrange : InI128 (others + targetBps)) (htotal : others + targetBps ≤ BPS_DENOM) :
      Governs i (.setAllocation pool targetBps)
        { i with allocations := i.allocations.set pool targetBps }

/-- What a call does to the settings: `initialize` writes them once, and after it only the admin. -/
inductive Settles (env : Env) (w : World) : Call → Option Instance → Prop
  | keep (call : Call) : Settles env w call w.inst
  | setup (admin usdcToken : Address) (h : w.inst = none) :
      Settles env w (.initialise admin usdcToken)
        (some ⟨admin, usdcToken, none, .empty, .empty, .empty, DEFAULT_BUFFER_BPS⟩)
  | govern (i i' : Instance) (call : Call) (hi : w.inst = some i) (hauth : env.Authorized i.admin)
      (h : Governs i call i') : Settles env w call (some i')

variable {rule : TokenRule} {vault pool : Address} {env : Env} {w : World} {call : Call}
variable {c : Env × Call} {r : World × Value} {i : Instance} {l : List (Address × ℤ)} {targetBps : ℤ}

/-- `set_allocation` in both directions. -/
theorem setAllocation_ok_iff {w' : World} : setAllocation env w pool targetBps = .ok w' ↔
    ∃ i others, w.inst = some i ∧ env.Authorized i.admin ∧ i.poolAllowlist.getD pool false = true ∧
      targetBps ≤ MAX_ALLOC_BPS ∧ othersTotal pool i.allocations.entries = .ok others ∧
      InI128 (others + targetBps) ∧ others + targetBps ≤ BPS_DENOM ∧
      w' = { w with inst := some { i with allocations := i.allocations.set pool targetBps } } := by
  simp only [setAllocation, unwrap, requireAdmin, bind_eq_ok, expect_eq_ok, Env.requireAuth_eq_ok,
    failIf_eq_ok, checked_eq_ok, pure_eq_ok, not_lt, gt_iff_lt, Bool.not_eq_false]
  constructor
  · rintro ⟨i, hi, _, hauth, _, hlisted, _, hcap, others, hothers, _, ⟨hrange, rfl⟩, _, htotal, rfl⟩
    exact ⟨i, others, hi, hauth, hlisted, hcap, hothers, hrange, htotal, rfl⟩
  · rintro ⟨i, others, hi, hauth, hlisted, hcap, hothers, hrange, htotal, rfl⟩
    exact ⟨i, hi, (), hauth, (), hlisted, (), hcap, others, hothers, _, ⟨hrange, rfl⟩, (), htotal, rfl⟩

theorem step_settles (h : step rule vault env w call = .ok r) : Settles env w call r.1.inst := by
  cases call with
  | initialise admin usdcToken =>
    simp only [step, silent_eq_ok, initialise, bind_eq_ok, failIf_eq_ok, pure_eq_ok] at h
    obtain ⟨_, ⟨_, hnone, rfl⟩, rfl⟩ := h
    exact .setup admin usdcToken (by simpa using hnone)
  | setHarvester harvester =>
    simp only [step, silent_eq_ok, setHarvester, unwrap, requireAdmin, bind_eq_ok, expect_eq_ok,
      Env.requireAuth_eq_ok, pure_eq_ok] at h
    obtain ⟨_, ⟨i, hi, _, hauth, rfl⟩, rfl⟩ := h
    exact .govern i _ _ hi hauth (.setHarvester harvester)
  | registerTierVault vault =>
    simp only [step, silent_eq_ok, registerTierVault, unwrap, requireAdmin, bind_eq_ok,
      expect_eq_ok, Env.requireAuth_eq_ok, pure_eq_ok] at h
    obtain ⟨_, ⟨i, hi, _, hauth, rfl⟩, rfl⟩ := h
    exact .govern i _ _ hi hauth (.registerTierVault vault)
  | allowPool pool =>
    simp only [step, silent_eq_ok, allowPool, unwrap, requireAdmin, bind_eq_ok, expect_eq_ok,
      Env.requireAuth_eq_ok, pure_eq_ok] at h
    obtain ⟨_, ⟨i, hi, _, hauth, rfl⟩, rfl⟩ := h
    exact .govern i _ _ hi hauth (.allowPool pool)
  | setBufferBps bps =>
    simp only [step, silent_eq_ok, setBufferBps, unwrap, requireAdmin, bind_eq_ok, expect_eq_ok,
      Env.requireAuth_eq_ok, failIf_eq_ok, pure_eq_ok] at h
    obtain ⟨_, ⟨i, hi, _, hauth, _, hrange, rfl⟩, rfl⟩ := h
    have hbps : 0 ≤ bps ∧ bps ≤ BPS_DENOM := by omega
    exact .govern i _ _ hi hauth (.setBufferBps bps hbps)
  | setAllocation pool targetBps =>
    simp only [step, silent_eq_ok, setAllocation_ok_iff] at h
    obtain ⟨_, ⟨i, others, hi, hauth, hlisted, hcap, hothers, hrange, htotal, rfl⟩, rfl⟩ := h
    exact .govern i _ _ hi hauth (.setAllocation pool targetBps others hlisted hcap hothers hrange htotal)
  | bufferBps =>
    obtain rfl := pure_eq_ok.mp h
    exact .keep _
  | allocations =>
    obtain rfl := pure_eq_ok.mp h
    exact .keep _
  | idleBalance =>
    simp only [step, bind_eq_ok, pure_eq_ok] at h
    obtain ⟨_, _, rfl⟩ := h
    exact .keep _
  | totalCapital =>
    simp only [step, bind_eq_ok, pure_eq_ok] at h
    obtain ⟨_, _, rfl⟩ := h
    exact .keep _
  | depositCapital caller amount =>
    simp only [step, silent_eq_ok, depositCapital, bind_eq_ok, pure_eq_ok] at h
    obtain ⟨_, ⟨_, _, _, _, _, _, _, _, rfl⟩, rfl⟩ := h
    exact .keep _
  | withdrawCapital caller amount =>
    simp only [step, silent_eq_ok, withdrawCapital, bind_eq_ok, pure_eq_ok] at h
    obtain ⟨_, ⟨_, _, _, _, _, _, _, _, _, _, rfl⟩, rfl⟩ := h
    exact .keep _
  | rebalance =>
    simp only [step, silent_eq_ok, rebalance, bind_eq_ok, pure_eq_ok] at h
    obtain ⟨_, ⟨_, _, _, _, _, _, _, _, _, _, _, _, rfl⟩, rfl⟩ := h
    exact .keep _

def others (pool : Address) (l : List (Address × ℤ)) : ℤ := ((l.filter (·.1 ≠ pool)).map Prod.snd).sum

theorem others_cons (pool : Address) (e : Address × ℤ) (l : List (Address × ℤ)) :
    others pool (e :: l) = (if e.1 ≠ pool then e.2 else 0) + others pool l := by
  by_cases he : e.1 = pool <;> simp [others, he]

theorem others_nonneg (h : ∀ e ∈ l, 0 ≤ e.2) : 0 ≤ others pool l := by
  apply List.sum_nonneg
  intro x hx
  obtain ⟨e, he, rfl⟩ := List.mem_map.mp hx
  exact h e (List.mem_filter.mp he).1

theorem othersTotal_ok {total : ℤ} (h : othersTotal pool l = .ok total) : total = others pool l := by
  have hfold : ∀ acc : ℤ, l.foldlM (fun total e =>
      if e.1 ≠ pool then checked "allocation sum overflow" (total + e.2) else pure total) acc =
        .ok total → total = acc + others pool l := by
    clear h
    induction l with
    | nil =>
      intro acc h
      simpa [others, eq_comm] using pure_eq_ok.mp h
    | cons e l ih =>
      intro acc h
      rw [List.foldlM_cons, bind_eq_ok] at h
      obtain ⟨mid, he, h⟩ := h
      rw [ih mid h, others_cons]
      split at he
      · next hne =>
        obtain ⟨_, rfl⟩ := checked_eq_ok.mp he
        rw [if_pos hne, add_assoc]
      · next heq =>
        obtain rfl := pure_eq_ok.mp he
        rw [if_neg heq, zero_add]
  have h0 := hfold 0 h
  rwa [zero_add] at h0

theorem othersTotal_of_nonneg (h0 : ∀ e ∈ l, 0 ≤ e.2) (hmax : others pool l ≤ i128Max) :
    othersTotal pool l = .ok (others pool l) := by
  have hfold : ∀ acc : ℤ, 0 ≤ acc → acc + others pool l ≤ i128Max → l.foldlM (fun total e =>
      if e.1 ≠ pool then checked "allocation sum overflow" (total + e.2) else pure total) acc =
        .ok (acc + others pool l) := by
    clear hmax
    induction l with
    | nil =>
      intro acc _ _
      simp [others, pure, Except.pure]
    | cons e l ih =>
      intro acc hacc hmax
      have he : 0 ≤ e.2 := h0 e List.mem_cons_self
      have hl : ∀ x ∈ l, 0 ≤ x.2 := fun x hx => h0 x (List.mem_cons_of_mem e hx)
      have hsum : 0 ≤ others pool l := others_nonneg hl
      rw [others_cons] at hmax ⊢
      rw [List.foldlM_cons]
      split at hmax
      · next hne =>
        have hrange : InI128 (acc + e.2) := by
          unfold InI128 i128Min
          omega
        have hrest := ih hl (acc + e.2) (by omega) (by omega)
        rw [if_pos hne, if_pos hne, checked, if_pos hrange, ok_bind, hrest, add_assoc]
      · next heq =>
        rw [zero_add] at hmax
        rw [if_neg heq, if_neg heq, zero_add]
        exact ih hl acc hacc hmax
  have hall := hfold 0 le_rfl (by omega)
  rwa [zero_add] at hall

theorem total_entries (m : Dict Address ℤ) : m.total (fun _ => True) = (m.entries.map Prod.snd).sum := by
  simp [Dict.total]

theorem total_others (m : Dict Address ℤ) (pool : Address) :
    m.total (fun p => True ∧ p ≠ pool) = others pool m.entries := by
  simp [Dict.total, others]

namespace Tabled

theorem others_bounds (h : Tabled i) (pool : Address) :
    0 ≤ others pool i.allocations.entries ∧
      others pool i.allocations.entries ≤ BPS_DENOM := by
  have h0 : 0 ≤ others pool i.allocations.entries := others_nonneg h.nonneg
  have hsplit := Dict.total_split (p := fun _ => True) i.allocations pool
  have hown : 0 ≤ (i.allocations.get pool).getD 0 := by
    cases hget : i.allocations.get pool with
    | none => simp
    | some v => exact h.nonneg (pool, v) (Dict.get_eq_some.mp hget)
  rw [total_entries, total_others, if_pos trivial] at hsplit
  have htotal := h.total
  omega

/-- A target between nothing and the cap that fits beside the others keeps the table sound. -/
theorem set (h : Tabled i) (hlisted : i.poolAllowlist.getD pool false = true) (h0 : 0 ≤ targetBps)
    (hcap : targetBps ≤ MAX_ALLOC_BPS)
    (htotal : others pool i.allocations.entries + targetBps ≤ BPS_DENOM) :
    Tabled { i with allocations := i.allocations.set pool targetBps } where
  listed e he := by
    rcases Dict.mem_set.mp he with rfl | ⟨he, _⟩
    · exact hlisted
    · exact h.listed e he
  nonneg e he := by
    rcases Dict.mem_set.mp he with rfl | ⟨he, _⟩
    · exact h0
    · exact h.nonneg e he
  capped e he := by
    rcases Dict.mem_set.mp he with rfl | ⟨he, _⟩
    · exact hcap
    · exact h.capped e he
  total := by
    rw [← total_entries, Dict.total_set, total_others, if_pos trivial]
    exact htotal

theorem governs {i' : Instance} (h : Tabled i) (hg : Governs i call i')
    (hno : ∀ pool t, call = .setAllocation pool t → 0 ≤ t) : Tabled i' := by
  cases hg with
  | setHarvester => exact ⟨h.listed, h.nonneg, h.capped, h.total⟩
  | registerTierVault => exact ⟨h.listed, h.nonneg, h.capped, h.total⟩
  | setBufferBps => exact ⟨h.listed, h.nonneg, h.capped, h.total⟩
  | allowPool pool =>
    refine ⟨fun e he => ?_, h.nonneg, h.capped, h.total⟩
    by_cases hp : e.1 = pool
    · simp [hp]
    · simpa [hp] using h.listed e he
  | setAllocation pool t others hlisted hcap hothers _ htotal =>
    rw [othersTotal_ok hothers] at htotal
    exact h.set hlisted (hno pool t rfl) hcap htotal

end Tabled

/-- In a vault with a sound table a negative target for a listed pool passes every check. -/
theorem undershoots_ok (hs : TableSound w) (ht : Typed c.2) (hu : Undershoots w c) :
    ∃ r, perform rule vault w c = .ok r ∧ ¬TableSound r.1 := by
  obtain ⟨env, call⟩ := c
  obtain ⟨i, pool, t, hi, rfl, hauth, hlisted, hneg⟩ := hu
  obtain ⟨h0, hle⟩ := (hs i hi).others_bounds pool
  have hrange : InI128 t := ht pool t rfl
  have hsmall : others pool i.allocations.entries ≤ i128Max := by
    unfold i128Max BPS_DENOM at *
    omega
  have hothers := othersTotal_of_nonneg (hs i hi).nonneg hsmall
  unfold InI128 i128Min i128Max BPS_DENOM at *
  have hset : ∃ w', setAllocation env w pool t = .ok w' :=
    ⟨_, setAllocation_ok_iff.mpr ⟨i, _, hi, hauth, hlisted, by unfold MAX_ALLOC_BPS; omega, hothers,
      by unfold InI128 i128Min i128Max; omega, by unfold BPS_DENOM; omega, rfl⟩⟩
  obtain ⟨w', hw'⟩ := hset
  refine ⟨(w', .unit), silent_eq_ok.mpr ⟨w', hw', rfl⟩, fun hsound => ?_⟩
  obtain ⟨j, _, hj, _, _, _, _, _, _, rfl⟩ := setAllocation_ok_iff.mp hw'
  have hmem := (hsound _ rfl).nonneg (pool, t) (Dict.mem_set.mpr (.inl rfl))
  omega

theorem sound_next_iff (ht : Typed c.2) (hs : TableSound w) :
    TableSound (next (perform rule vault) w c) ↔ ¬Undershoots w c := by
  constructor
  · intro hnext hu
    obtain ⟨r, hr, hbad⟩ : ∃ r, perform rule vault w c = .ok r ∧ ¬TableSound r.1 :=
      undershoots_ok hs ht hu
    exact hbad (next_ok hr ▸ hnext)
  · intro hno
    apply next_induction hs
    intro r hr j hj
    obtain ⟨env, call⟩ := c
    have hsettles : Settles env w call r.1.inst := step_settles hr
    rw [hj] at hsettles
    generalize ho : some j = o at hsettles
    cases hsettles with
    | keep => exact hs j ho.symm
    | setup =>
      cases ho
      exact ⟨by simp [Dict.empty], by simp [Dict.empty], by simp [Dict.empty],
        by simp [Dict.empty, BPS_DENOM]⟩
    | govern i i' _ hi hauth hg =>
      cases ho
      refine (hs i hi).governs hg fun pool t hcall => ?_
      subst hcall
      by_contra hneg
      cases hg with
      | setAllocation _ _ _ hlisted => exact hno ⟨i, pool, t, hi, rfl, hauth, hlisted, by omega⟩

/-- The table is sound in every state of a run exactly when the run sets no negative target; and in
every state reached a rejected `set_allocation` changes nothing, an accepted one the one entry. -/
theorem table_sound_iff (hw : w.inst = none) {cs : List (Env × Call)} (hcs : ∀ c ∈ cs, Typed c.2) :
    ((∀ ds, ds <+: cs → TableSound (run (perform rule vault) w ds)) ↔
      Meets (perform rule vault) (fun w c => ¬Undershoots w c) w cs) ∧
    ∀ env pool targetBps,
      (∀ e, perform rule vault (run (perform rule vault) w cs) (env, .setAllocation pool targetBps) =
          .error e →
        next (perform rule vault) (run (perform rule vault) w cs) (env, .setAllocation pool targetBps) =
          run (perform rule vault) w cs) ∧
      ∀ r, perform rule vault (run (perform rule vault) w cs) (env, .setAllocation pool targetBps) =
          .ok r →
        ∃ i table, (run (perform rule vault) w cs).inst = some i ∧
          r.1 = { run (perform rule vault) w cs with inst := some { i with allocations := table } } ∧
          ∀ p, table.get p = if p = pool then some targetBps else i.allocations.get p := by
  constructor
  · have hs : TableSound w := by
      intro i hi
      cases hw.symm.trans hi
    exact forall_prefix_iff_meets (Q := fun c => Typed c.2) (fun w c ht hw => sound_next_iff ht hw) hs hcs
  · intro env pool targetBps
    refine ⟨fun e he => next_error he, fun r hr => ?_⟩
    obtain ⟨w', hw', rfl⟩ := silent_eq_ok.mp hr
    obtain ⟨i, _, hi, _, _, _, _, _, _, rfl⟩ := setAllocation_ok_iff.mp hw'
    exact ⟨i, _, hi, rfl, fun p => Dict.get_set i.allocations pool p targetBps⟩

def blank : World := ⟨none, fun _ _ => 0⟩

def tableRun (targetBps : ℤ) : List (Env × Call) :=
  [(⟨[1], none, 1⟩, .initialise (.account 1) (.contract 5)),
   (⟨[1], none, 2⟩, .allowPool (.contract 6)),
   (⟨[1], none, 3⟩, .setAllocation (.contract 6) targetBps)]

theorem tableRun_typed {targetBps : ℤ} (h : InI128 targetBps) :
    ∀ c ∈ tableRun targetBps, Typed c.2 := by
  intro c hc pool t hcall
  simp only [tableRun, List.mem_cons, List.not_mem_nil, or_false] at hc
  rcases hc with rfl | rfl | rfl <;> simp_all

theorem table_sound_iff_tableRun : (∀ c ∈ tableRun 3_500, Typed c.2) ∧
    ∀ ds, ds <+: tableRun 3_500 → TableSound (run (perform .host (.contract 0)) blank ds) := by
  have htyped : ∀ c ∈ tableRun 3_500, Typed c.2 := tableRun_typed (by decide)
  refine ⟨htyped, (table_sound_iff rfl htyped).1.mpr ?_⟩
  refine ⟨?_, ?_, ?_, trivial⟩ <;> rintro ⟨_, _, _, _, hcall, _, _, hneg⟩ <;> cases hcall
  omega

/-- A target of minus one basis point is stored. -/
theorem tableRun_negative :
    (∀ c ∈ tableRun (-1), Typed c.2) ∧
      ¬∀ ds, ds <+: tableRun (-1) → TableSound (run (perform .host (.contract 0)) blank ds) := by
  refine ⟨tableRun_typed (by decide), fun hall => ?_⟩
  have hsound := hall _ (List.prefix_refl _)
  have hmem := (hsound _ rfl).nonneg (.contract 6, -1) (by decide)
  omega

end YieldLadder.StrategyVault
