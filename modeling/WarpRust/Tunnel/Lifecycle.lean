import WarpRust.Library.Lists
import WarpRust.Tunnel.Generation

/-!
# The life of a tunnel generation

A generation is retired only after it was replaced or cleared, never before its drain window
opens and, while someone still holds it, exactly when its timer says. What was handed out is
live at that moment, and nothing is touched through a lease on a retired generation.
-/

namespace WarpRust.Tunnel
open Library

section Delay
variable (policy : GenerationPolicy) (age : Duration) (reason : ReplaceReason)

theorem floor_le_retirementDelay :
    min minTunnelDrainGrace (policy.graceFor reason) ≤ retirementDelay age policy reason :=
  le_max_right _ _

theorem retirementDelay_le_grace : retirementDelay age policy reason ≤ policy.graceFor reason :=
  max_le (min_le_left _ _) (min_le_right _ _)

theorem age_add_retirementDelay_le :
    age + retirementDelay age policy reason ≤
      max policy.maxAge (age + min minTunnelDrainGrace (policy.graceFor reason)) := by
  simp only [retirementDelay, Duration]
  omega

end Delay

def Generation.due (policy : GenerationPolicy) (g : Generation) (r : Instant)
    (reason : ReplaceReason) : Instant :=
  r + retirementDelay (r - g.createdAt) policy reason

variable {policy : GenerationPolicy} {s s' : State}

def State.Held (s : State) (id : ℕ) : Prop :=
  (∃ c ∈ s.calls, c.gen = id) ∨ ∃ l ∈ s.leases, l.gen = id

theorem alive_iff (id : ℕ) : s.alive id = true ↔ s.current = some id ∨ s.Held id := by
  simp only [State.alive, State.Held, Bool.or_eq_true, beq_iff_eq, List.any_eq_true, or_assoc]

structure GenInv (policy : GenerationPolicy) (s : State) : Prop where
  current : ∀ id, s.current = some id →
    ∃ g : Generation, s.gens[id]? = some g ∧ g.retiredAt = none ∧ g.replaced = none
  created : ∀ (id : ℕ) (g : Generation), s.gens[id]? = some g → g.createdAt ≤ s.now
  held : ∀ id, s.Held id → id < s.gens.length
  timer : ∀ id due, (id, due) ∈ s.timers → s.now ≤ due ∧ s.current ≠ some id ∧
    ∃ (g : Generation) (r : Instant) (reason : ReplaceReason), s.gens[id]? = some g ∧
      g.replaced = some (r, reason) ∧ due = g.due policy r reason
  replaced : ∀ (id : ℕ) (g : Generation) (r : Instant) (reason : ReplaceReason),
    s.gens[id]? = some g → g.replaced = some (r, reason) →
    g.createdAt ≤ r ∧ (∀ t, g.retiredAt = some t → t = g.due policy r reason) ∧
      (g.retiredAt = none → (id, g.due policy r reason) ∈ s.timers ∨ s.alive id = false)

theorem GenInv.fromManaged (hasIpv6 : Bool) (t₀ : Instant) :
    GenInv policy (State.fromManaged hasIpv6 t₀) := by
  have hg : ∀ (id : ℕ) (g : Generation), (State.fromManaged hasIpv6 t₀).gens[id]? = some g →
      g = ⟨hasIpv6, t₀, none, none⟩ := by
    intro id g h
    exact List.mem_singleton.mp (List.mem_of_getElem? h)
  refine ⟨?_, ?_, ?_, ?_, ?_⟩
  · intro id h
    obtain rfl := Option.some.inj h
    exact ⟨_, rfl, rfl, rfl⟩
  · intro id g h
    rw [hg id g h]
    exact le_rfl
  · rintro id (⟨c, hc, _⟩ | ⟨l, hl, _⟩)
    · cases hc
    · cases hl
  · intro id due h
    cases h
  · intro id g r reason h hr
    rw [hg id g h] at hr
    cases hr

theorem GenInv.frame (h : GenInv policy s) (hgens : s'.gens = s.gens)
    (htimers : s'.timers = s.timers)
    (hcurrent : s'.current = s.current) (hnow : s'.now = s.now)
    (hheld : ∀ id, s'.Held id → s.Held id ∨ s.current = some id) : GenInv policy s' := by
  have halive : ∀ id, s.alive id = false → s'.alive id = false := by
    intro id hid
    rw [Bool.eq_false_iff, ne_eq, alive_iff] at hid ⊢
    rintro (hc | hh)
    · exact hid (.inl (hcurrent ▸ hc))
    · exact hid ((hheld id hh).symm)
  refine ⟨?_, ?_, ?_, ?_, ?_⟩
  · rw [hcurrent, hgens]
    exact h.current
  · rw [hgens, hnow]
    exact h.created
  · intro id hh
    rw [hgens]
    rcases hheld id hh with hh | hc
    · exact h.held id hh
    · obtain ⟨g, hg, _⟩ := h.current id hc
      exact (List.getElem?_eq_some_iff.mp hg).1
  · rw [htimers, hgens, hnow, hcurrent]
    exact h.timer
  · intro id g r reason hg hr
    rw [hgens] at hg
    obtain ⟨hcreated, hret, hnone⟩ := h.replaced id g r reason hg hr
    refine ⟨hcreated, hret, fun hn => ?_⟩
    rw [htimers]
    exact (hnone hn).imp_right (halive id)

theorem held_erase_calls {i id : ℕ}
    (h : State.Held { s with calls := s.calls.eraseIdx i } id) : s.Held id := by
  rcases h with ⟨c, hc, hid⟩ | hl
  · exact .inl ⟨c, List.mem_of_mem_eraseIdx hc, hid⟩
  · exact .inr hl

theorem held_setPhase {i id : ℕ} {c : Call} {phase : Phase} (hi : s.calls[i]? = some c)
    (h : (s.setPhase i c phase).Held id) : s.Held id := by
  rcases h with ⟨c', hc, hid⟩ | hl
  · rcases List.mem_or_eq_of_mem_set hc with hc | rfl
    · exact .inl ⟨c', hc, hid⟩
    · exact .inl ⟨c, List.mem_of_getElem? hi, hid⟩
  · exact .inr hl

theorem held_giveLease {i id : ℕ} {c : Call} {b : Bool} (hi : s.calls[i]? = some c)
    (h : (s.giveLease i c b).Held id) : s.Held id := by
  rcases h with ⟨c', hc, hid⟩ | ⟨l, hl, hid⟩
  · exact .inl ⟨c', List.mem_of_mem_eraseIdx hc, hid⟩
  · rcases List.mem_append.mp hl with hl | hl
    · exact .inr ⟨l, hl, hid⟩
    · obtain rfl := List.mem_singleton.mp hl
      exact .inl ⟨c, List.mem_of_getElem? hi, hid⟩

theorem GenInv.tick (h : GenInv policy s) {d : Duration} (hd : ∀ t ∈ s.timers, s.now + d ≤ t.2) :
    GenInv policy { s with now := s.now + d } where
  current := h.current
  created := fun id g hg => Nat.le_add_right_of_le (h.created id g hg)
  held := h.held
  timer := fun id due ht => ⟨hd _ ht, (h.timer id due ht).2⟩
  replaced := h.replaced

theorem forceRetire_replaced (now : Instant) (g : Generation) :
    (g.forceRetire now).replaced = g.replaced ∧ (g.forceRetire now).createdAt = g.createdAt := by
  unfold Generation.forceRetire
  split
  · exact ⟨rfl, rfl⟩
  · exact ⟨rfl, rfl⟩

theorem getElem?_forceRetire {id x : ℕ} {g : Generation}
    (hg : (s.forceRetire id).gens[x]? = some g) :
    ∃ g₀, s.gens[x]? = some g₀ ∧ g.createdAt = g₀.createdAt ∧ g.replaced = g₀.replaced ∧
      g = if id = x then g₀.forceRetire s.now else g₀ := by
  simp only [State.forceRetire, List.getElem?_modify] at hg
  cases hx : s.gens[x]? with
  | none => simp [hx] at hg
  | some g₀ =>
    obtain ⟨hreplaced, hcreated⟩ := forceRetire_replaced s.now g₀
    by_cases hid : id = x
    · obtain rfl : g = g₀.forceRetire s.now := by simpa [hx, hid, eq_comm] using hg
      exact ⟨g₀, rfl, hcreated, hreplaced, by rw [if_pos hid]⟩
    · obtain rfl : g = g₀ := by simpa [hx, hid, eq_comm] using hg
      exact ⟨g, rfl, rfl, rfl, by rw [if_neg hid]⟩

theorem forceRetire_retiredAt (now : Instant) (g : Generation) :
    (g.forceRetire now).retiredAt = some (g.retiredAt.getD now) := by
  unfold Generation.forceRetire Generation.retired
  cases h : g.retiredAt with
  | none => simp
  | some t => simp [h]

theorem GenInv.clear (h : GenInv policy s) : GenInv policy s.clear := by
  unfold State.clear
  cases hc : s.current with
  | none => exact h
  | some id =>
    obtain ⟨g, hg, hret, hrep⟩ := h.current id hc
    refine ⟨?_, ?_, ?_, ?_, ?_⟩
    · intro x hx
      cases hx
    · intro x g' hx
      obtain ⟨g₀, hg₀, hcr, _⟩ := getElem?_forceRetire hx
      rw [hcr]
      exact h.created x g₀ hg₀
    · intro x hx
      simpa [State.forceRetire] using h.held x hx
    · intro x due hx
      obtain ⟨hnow, _, g', r, reason, hg', hr, hdue⟩ := h.timer x due hx
      refine ⟨hnow, by simp, g', r, reason, ?_, hr, hdue⟩
      have hne : id ≠ x := by
        rintro rfl
        rw [Option.some.inj (hg.symm.trans hg')] at hrep
        rw [hrep] at hr
        cases hr
      simpa [State.forceRetire, List.getElem?_modify, hne] using hg'
    · intro x g' r reason hx hr
      obtain ⟨g₀, hg₀, _, hrep', hg'⟩ := getElem?_forceRetire hx
      -- The current generation has not been replaced, so this is another one.
      have hne : id ≠ x := by
        rintro rfl
        rw [hrep', ← Option.some.inj (hg.symm.trans hg₀), hrep] at hr
        cases hr
      rw [if_neg hne] at hg'
      subst hg'
      obtain ⟨hcr, hdue, hnone⟩ := h.replaced x g' r reason hg₀ hr
      refine ⟨hcr, hdue, fun hn => (hnone hn).imp_right fun hdead => ?_⟩
      rw [Bool.eq_false_iff, ne_eq, alive_iff] at hdead ⊢
      rintro (hcur | hheld)
      · cases hcur
      · exact hdead (.inr hheld)

theorem GenInv.expire (h : GenInv policy s) {i id : ℕ} {due : Instant}
    (hi : s.timers[i]? = some (id, due)) (hdead : s.alive id = false) :
    GenInv policy { s with timers := s.timers.eraseIdx i } where
  current := h.current
  created := h.created
  held := h.held
  timer := fun x d hx => h.timer x d (List.mem_of_mem_eraseIdx hx)
  replaced := by
    intro x g r reason hg hr
    obtain ⟨hcr, hdue, hnone⟩ := h.replaced x g r reason hg hr
    refine ⟨hcr, hdue, fun hn => ?_⟩
    rcases hnone hn with htimer | hx
    · by_cases hid : x = id
      · exact .inr (hid ▸ hdead)
      · exact .inl (mem_eraseIdx_of_ne hi htimer fun he => hid (congrArg Prod.fst he))
    · exact .inr hx

theorem GenInv.fire (h : GenInv policy s) {i id : ℕ} {due : Instant}
    (hi : s.timers[i]? = some (id, due)) (hd : due ≤ s.now) :
    GenInv policy (State.forceRetire { s with timers := s.timers.eraseIdx i } id) := by
  obtain ⟨hnow, hcur, g, r, reason, hg, hr, hdue⟩ := h.timer id due (List.mem_of_getElem? hi)
  have hnow : s.now = g.due policy r reason := by rw [← hdue]; exact le_antisymm hnow hd
  refine ⟨?_, ?_, ?_, ?_, ?_⟩
  · intro x hx
    obtain ⟨g', hg', hrest⟩ := h.current x hx
    have hne : id ≠ x := by
      rintro rfl
      exact hcur hx
    exact ⟨g', by simpa [State.forceRetire, List.getElem?_modify, hne] using hg', hrest⟩
  · intro x g' hx
    obtain ⟨g₀, hg₀, hcr, _⟩ := getElem?_forceRetire hx
    rw [hcr]
    exact h.created x g₀ hg₀
  · intro x hx
    simpa [State.forceRetire] using h.held x hx
  · intro x d hx
    obtain ⟨hle, hxc, g₀, r', reason', hg₀, hr', hd'⟩ :=
      h.timer x d (List.mem_of_mem_eraseIdx hx)
    refine ⟨hle, hxc, ?_⟩
    by_cases hid : id = x
    · obtain ⟨h1, h2⟩ := forceRetire_replaced s.now g₀
      refine ⟨g₀.forceRetire s.now, r', reason', ?_, h1.trans hr', ?_⟩
      · simp [State.forceRetire, hid, hg₀]
      · rw [hd', Generation.due, Generation.due, h2]
    · exact ⟨g₀, r', reason', by simpa [State.forceRetire, List.getElem?_modify, hid] using hg₀,
        hr', hd'⟩
  · intro x g' r' reason' hx hr'
    obtain ⟨g₀, hg₀, hcr, hrep, hg'⟩ := getElem?_forceRetire hx
    obtain ⟨hle, hret, hnone⟩ := h.replaced x g₀ r' reason' hg₀ (hrep ▸ hr')
    have hsame : g'.due policy r' reason' = g₀.due policy r' reason' := by
      rw [Generation.due, Generation.due, hcr]
    rw [hsame, hcr]
    by_cases hid : id = x
    · subst hid
      obtain rfl := Option.some.inj (hg.symm.trans hg₀)
      obtain ⟨rfl, rfl⟩ : r = r' ∧ reason = reason' := by
        have := hr.symm.trans (hrep ▸ hr')
        simpa using this
      rw [if_pos rfl] at hg'
      have hretired := forceRetire_retiredAt s.now g
      rw [← hg'] at hretired
      refine ⟨hle, ?_, ?_⟩
      · intro t ht
        obtain rfl := Option.some.inj (hretired.symm.trans ht)
        cases hg₁ : g.retiredAt with
        | none => exact hnow
        | some t' => exact hret t' hg₁
      · intro hn
        rw [hn] at hretired
        cases hretired
    · rw [if_neg hid] at hg'
      subst hg'
      refine ⟨hle, hret, fun hn => (hnone hn).imp_left fun htimer => ?_⟩
      exact mem_eraseIdx_of_ne hi htimer fun he => hid (congrArg Prod.fst he).symm

theorem GenInv.install (h : GenInv policy s) (hasIpv6 : Bool) :
    GenInv policy (s.install hasIpv6) := by
  have hlt {x : ℕ} {g : Generation} (hg : s.gens[x]? = some g) : x < s.gens.length :=
    (List.getElem?_eq_some_iff.mp hg).1
  have hold {x : ℕ} {g : Generation} (hg : s.gens[x]? = some g) :
      (s.install hasIpv6).gens[x]? = some g := by
    simpa [State.install, List.getElem?_append_left (hlt hg)] using hg
  have hgens : ∀ (x : ℕ) (g : Generation), (s.install hasIpv6).gens[x]? = some g →
      s.gens[x]? = some g ∨ g = ⟨hasIpv6, s.now, none, none⟩ := by
    intro x g hg
    by_cases hx : x < s.gens.length
    · exact .inl (by simpa [State.install, List.getElem?_append_left hx] using hg)
    · rw [State.install, List.getElem?_append_right (not_lt.mp hx)] at hg
      exact .inr (List.mem_singleton.mp (List.mem_of_getElem? hg))
  refine ⟨?_, ?_, ?_, ?_, ?_⟩
  · intro x hx
    obtain rfl : s.gens.length = x := Option.some.inj hx
    exact ⟨⟨hasIpv6, s.now, none, none⟩, by simp [State.install], rfl, rfl⟩
  · intro x g hg
    rcases hgens x g hg with hg | rfl
    · exact h.created x g hg
    · exact le_rfl
  · intro x hx
    have := h.held x hx
    simp only [State.install, List.length_append, List.length_singleton]
    omega
  · intro x due hx
    obtain ⟨hnow, _, g, r, reason, hg, hrest⟩ := h.timer x due hx
    refine ⟨hnow, ?_, g, r, reason, hold hg, hrest⟩
    intro he
    exact absurd (hlt hg) (by rw [← Option.some.inj he]; exact lt_irrefl _)
  · intro x g r reason hg hr
    rcases hgens x g hg with hg | rfl
    · obtain ⟨hcr, hdue, hnone⟩ := h.replaced x g r reason hg hr
      refine ⟨hcr, hdue, fun hn => (hnone hn).imp_right fun hdead => ?_⟩
      rw [Bool.eq_false_iff, ne_eq, alive_iff] at hdead ⊢
      rintro (he | hheld)
      · exact absurd (hlt hg) (by rw [← Option.some.inj he]; exact lt_irrefl _)
      · exact hdead (.inr hheld)
    · cases hr

def Generation.drained (policy : GenerationPolicy) (now : Instant) (reason : ReplaceReason)
    (g : Generation) : Generation :=
  { g with
    replaced := some (now, reason),
    retiredAt := if retirementDelay (now - g.createdAt) policy reason = 0 then some now else none }

/-- Retired at once only where there is nothing to wait for. -/
theorem Generation.drained_retired {g : Generation} {now t : Instant} {reason : ReplaceReason}
    (h : (g.drained policy now reason).retiredAt = some t) : t = g.due policy now reason := by
  simp only [Generation.drained] at h
  split at h
  · next hdelay =>
    rw [Generation.due, hdelay]
    exact (Option.some.inj h).symm
  · cases h

theorem Generation.drained_waits {g : Generation} {now : Instant} {reason : ReplaceReason}
    (h : (g.drained policy now reason).retiredAt = none) :
    retirementDelay (now - g.createdAt) policy reason ≠ 0 := by
  intro hdelay
  simp only [Generation.drained, if_pos hdelay] at h
  cases h

theorem schedule_gens (policy : GenerationPolicy) {id : ℕ} {g : Generation}
    (hg : s.gens[id]? = some g)
    (hret : g.retiredAt = none) (reason : ReplaceReason) (x : ℕ) :
    ((s.markReplaced id reason).scheduleRetirement policy id g reason).gens[x]? =
      if id = x then some (g.drained policy s.now reason) else s.gens[x]? := by
  by_cases hx : id = x
  · subst hx
    by_cases hdelay : retirementDelay (s.now - g.createdAt) policy reason = 0
    · simp [State.scheduleRetirement, State.markReplaced, State.forceRetire, hdelay, hg,
        Generation.forceRetire, Generation.retired, Generation.drained, hret]
    · simp [State.scheduleRetirement, State.markReplaced, hdelay, hg, Generation.drained, hret]
  · rw [if_neg hx]
    unfold State.scheduleRetirement
    simp only
    split
    · simp [State.markReplaced, State.forceRetire, hx]
    · simp [State.markReplaced, hx]

theorem schedule_timers (policy : GenerationPolicy) (s : State) (id : ℕ) (g : Generation)
    (reason : ReplaceReason) :
    ((s.markReplaced id reason).scheduleRetirement policy id g reason).timers =
      if retirementDelay (s.now - g.createdAt) policy reason = 0 then s.timers
      else s.timers ++ [(id, s.now + retirementDelay (s.now - g.createdAt) policy reason)] := by
  unfold State.scheduleRetirement
  simp only
  split
  · next hdelay => exact (if_pos hdelay).symm
  · next hdelay => exact (if_neg hdelay).symm

theorem schedule_frame (policy : GenerationPolicy) (s : State) (id : ℕ) (g : Generation)
    (reason : ReplaceReason) :
    let s₁ := (s.markReplaced id reason).scheduleRetirement policy id g reason
    s₁.now = s.now ∧ s₁.current = s.current ∧ s₁.calls = s.calls ∧ s₁.leases = s.leases ∧
      s₁.gens.length = s.gens.length := by
  simp only [State.scheduleRetirement]
  split
  · exact ⟨rfl, rfl, rfl, rfl, by simp [State.markReplaced, State.forceRetire]⟩
  · exact ⟨rfl, rfl, rfl, rfl, by simp [State.markReplaced]⟩

theorem GenInv.schedule (h : GenInv policy s) {id : ℕ} {g : Generation}
    (hg : s.gens[id]? = some g) (hret : g.retiredAt = none) (hrep : g.replaced = none)
    (hcur : s.current ≠ some id) (reason : ReplaceReason) :
    GenInv policy ((s.markReplaced id reason).scheduleRetirement policy id g reason) := by
  have hgens := fun x => schedule_gens policy hg hret reason x
  have htimers := schedule_timers policy s id g reason
  obtain ⟨hnow, hcurrent, hcalls, hleases, hlen⟩ :=
    schedule_frame policy s id g reason
  generalize (s.markReplaced id reason).scheduleRetirement policy id g reason = s₁ at *
  have hheld (x : ℕ) : s₁.Held x ↔ s.Held x := by simp only [State.Held, hcalls, hleases]
  have halive (x : ℕ) : s₁.alive x = s.alive x := by
    rw [Bool.eq_iff_iff, alive_iff, alive_iff, hcurrent, hheld]
  have hdue : (g.drained policy s.now reason).due policy s.now reason =
      s.now + retirementDelay (s.now - g.createdAt) policy reason := rfl
  refine ⟨?_, ?_, ?_, ?_, ?_⟩
  · intro x hx
    rw [hcurrent] at hx
    have hne : id ≠ x := by
      rintro rfl
      exact hcur hx
    rw [hgens, if_neg hne]
    exact h.current x hx
  · intro x g' hx
    rw [hnow]
    rw [hgens] at hx
    split at hx
    · obtain rfl := Option.some.inj hx
      exact h.created id g hg
    · exact h.created x g' hx
  · intro x hx
    rw [hlen]
    exact h.held x ((hheld x).mp hx)
  · intro x due hx
    rw [hnow, hcurrent]
    have hx : (x, due) ∈ s.timers ∨ x = id ∧
        due = s.now + retirementDelay (s.now - g.createdAt) policy reason := by
      rw [htimers] at hx
      split at hx
      · exact .inl hx
      · simpa using hx
    rcases hx with hx | ⟨rfl, rfl⟩
    · obtain ⟨hle, hxc, g', r, reason', hg', hr, hd⟩ := h.timer x due hx
      have hne : id ≠ x := by
        rintro rfl
        rw [Option.some.inj (hg.symm.trans hg'), hr] at hrep
        cases hrep
      refine ⟨hle, hxc, g', r, reason', ?_, hr, hd⟩
      rw [hgens, if_neg hne]
      exact hg'
    · refine ⟨Nat.le_add_right _ _, hcur, g.drained policy s.now reason, s.now, reason, ?_, rfl,
        hdue.symm⟩
      rw [hgens, if_pos rfl]
  · intro x g' r reason' hx hr
    rw [hgens] at hx
    rw [htimers, halive]
    by_cases hid : id = x
    · subst hid
      rw [if_pos rfl] at hx
      obtain rfl := Option.some.inj hx
      obtain ⟨rfl, rfl⟩ : s.now = r ∧ reason = reason' := by
        simpa [Generation.drained] using hr
      refine ⟨h.created id g hg, fun t ht => Generation.drained_retired ht, fun hn => .inl ?_⟩
      rw [hdue, if_neg (Generation.drained_waits hn)]
      exact List.mem_append_right _ List.mem_cons_self
    · rw [if_neg hid] at hx
      obtain ⟨hcr, hd, hnone⟩ := h.replaced x g' r reason' hx hr
      refine ⟨hcr, hd, fun hn => (hnone hn).imp_left fun ht => ?_⟩
      split
      · exact ht
      · exact List.mem_append_left _ ht

theorem GenInv.replace (h : GenInv policy s) (hasIpv6 : Bool) (reason : ReplaceReason) :
    GenInv policy (s.replace policy hasIpv6 reason) := by
  unfold State.replace
  split
  · exact h.install hasIpv6
  · next id hc =>
    obtain ⟨g, hg, hret, hrep⟩ := h.current id hc
    have hlt := (List.getElem?_eq_some_iff.mp hg).1
    rw [hg]
    refine (h.install hasIpv6).schedule ?_ hret hrep ?_ reason
    · simpa [State.install, List.getElem?_append_left hlt] using hg
    · intro he
      exact absurd hlt (by rw [← Option.some.inj he]; exact lt_irrefl _)

theorem step_genInv {a : Action} (h : GenInv policy s) (ha : Step policy s a s') :
    GenInv policy s' := by
  cases ha with
  | tick hd => exact h.tick hd
  | replace hasIpv6 reason => exact h.replace hasIpv6 reason
  | clear => exact h.clear
  | fire hi hd => exact h.fire hi hd
  | expire hi _ hdead => exact h.expire hi hdead
  | refuse => exact h.frame rfl rfl rfl rfl fun _ hh => .inl hh
  | @load kind id hc =>
    refine h.frame rfl rfl rfl rfl fun x hh => ?_
    rcases hh with ⟨c, hm, hx⟩ | hl
    · rcases List.mem_append.mp hm with hm | hm
      · exact .inl (.inl ⟨c, hm, hx⟩)
      · obtain rfl := List.mem_singleton.mp hm
        exact .inr (hc.trans (congrArg some hx))
    · exact .inl (.inr hl)
  | check hi => exact h.frame rfl rfl rfl rfl fun _ hh => .inl (held_setPhase hi hh)
  | connect hi => exact h.frame rfl rfl rfl rfl fun _ hh => .inl (held_setPhase hi hh)
  | dialed hi => exact h.frame rfl rfl rfl rfl fun _ hh => .inl (held_giveLease hi hh)
  | bind hi => exact h.frame rfl rfl rfl rfl fun _ hh => .inl (held_giveLease hi hh)
  | fail => exact h.frame rfl rfl rfl rfl fun _ hh => .inl (held_erase_calls hh)
  | dropCall => exact h.frame rfl rfl rfl rfl fun _ hh => .inl (held_erase_calls hh)
  | startOp => exact h.frame rfl rfl rfl rfl fun _ hh => .inl hh
  | closedOp => exact h.frame rfl rfl rfl rfl fun _ hh => .inl hh
  | innerOp => exact h.frame rfl rfl rfl rfl fun _ hh => .inl hh
  | pendingOp => exact h.frame rfl rfl rfl rfl fun _ hh => .inl hh
  | dropOp => exact h.frame rfl rfl rfl rfl fun _ hh => .inl hh
  | dropLease =>
    refine h.frame rfl rfl rfl rfl fun x hh => ?_
    rcases hh with hc | ⟨l, hl, hx⟩
    · exact .inl (.inl hc)
    · exact .inl (.inr ⟨l, List.mem_of_mem_eraseIdx hl, hx⟩)

/-! ## Calls, leases and operations -/

theorem retired_iff (id : ℕ) :
    s.retired id = true ↔ ∃ g, s.gens[id]? = some g ∧ g.retiredAt.isSome = true := by
  unfold State.retired
  cases hg : s.gens[id]? with
  | none => simp
  | some g => simp [Generation.retired]

theorem retired_mono {id : ℕ} (hg : ∀ g, s.gens[id]? = some g → g.retiredAt.isSome = true →
    ∃ g', s'.gens[id]? = some g' ∧ g'.retiredAt.isSome = true) (h : s.retired id = true) :
    s'.retired id = true := by
  obtain ⟨g, hx, hr⟩ := (retired_iff id).mp h
  exact (retired_iff id).mpr (hg g hx hr)

theorem retired_forceRetire {id x : ℕ} (h : s.retired x = true) :
    (s.forceRetire id).retired x = true := by
  refine retired_mono ?_ h
  intro g hg hr
  by_cases hid : id = x
  · exact ⟨g.forceRetire s.now, by simp [State.forceRetire, hid, hg],
      by rw [forceRetire_retiredAt]; rfl⟩
  · exact ⟨g, by simpa [State.forceRetire, List.getElem?_modify, hid] using hg, hr⟩

theorem step_retired {a : Action} (hinv : GenInv policy s) (ha : Step policy s a s') {id : ℕ}
    (h : s.retired id = true) : s'.retired id = true := by
  cases ha with
  | replace hasIpv6 reason =>
    have hinstall : (s.install hasIpv6).retired id = true := by
      refine retired_mono ?_ h
      intro g hg hr
      have hlt := (List.getElem?_eq_some_iff.mp hg).1
      exact ⟨g, by simpa [State.install, List.getElem?_append_left hlt] using hg, hr⟩
    unfold State.replace
    split
    · exact hinstall
    · next x hc =>
      obtain ⟨g, hg, hret, hrep⟩ := hinv.current x hc
      have hlt := (List.getElem?_eq_some_iff.mp hg).1
      have hg' : (s.install hasIpv6).gens[x]? = some g := by
        simpa [State.install, List.getElem?_append_left hlt] using hg
      rw [hg]
      refine retired_mono ?_ hinstall
      intro g₁ hg₁ hr
      have hne : x ≠ id := by
        rintro rfl
        rw [Option.some.inj (hg'.symm.trans hg₁)] at hret
        rw [hret] at hr
        cases hr
      refine ⟨g₁, ?_, hr⟩
      rw [schedule_gens policy hg' hret, if_neg hne]
      exact hg₁
  | clear =>
    unfold State.clear
    split
    · exact h
    · exact retired_forceRetire h
  | fire => exact retired_forceRetire h
  | _ => exact h

structure LeaseInv (s : State) : Prop where
  live : ∀ c ∈ s.calls, c.phase ≠ .live true
  connected : ∀ c ∈ s.calls, c.phase = .connected true → s.retired c.gen = true
  lease : ∀ l ∈ s.leases, l.retiredThen = false
  op : ∀ o ∈ s.ops, o.retiredAtStart = true → s.retired o.gen = true ∧ o.touched = false
  finished : ∀ d ∈ s.finished, d.op.retiredAtStart = true →
    d.result = .error .connectionClosed ∧ d.op.touched = false

theorem LeaseInv.frame (h : LeaseInv s) (hret : ∀ id, s.retired id = true → s'.retired id = true)
    (hcalls : ∀ c ∈ s'.calls, c ∈ s.calls) (hleases : ∀ l ∈ s'.leases, l ∈ s.leases)
    (hops : ∀ o ∈ s'.ops, o ∈ s.ops) (hfin : s'.finished = s.finished) : LeaseInv s' where
  live := fun c hc => h.live c (hcalls c hc)
  connected := fun c hc hp => hret _ (h.connected c (hcalls c hc) hp)
  lease := fun l hl => h.lease l (hleases l hl)
  op := fun o ho hr => (h.op o (hops o ho) hr).imp_left (hret _)
  finished := by
    rw [hfin]
    exact h.finished

theorem LeaseInv.setPhase (h : LeaseInv s) {i : ℕ} {c : Call} {phase : Phase}
    (hlive : phase ≠ .live true) (hconn : phase = .connected true → s.retired c.gen = true) :
    LeaseInv (s.setPhase i c phase) where
  live := by
    intro c' hc
    rcases List.mem_or_eq_of_mem_set hc with hc | rfl
    · exact h.live c' hc
    · exact hlive
  connected := by
    intro c' hc hp
    rcases List.mem_or_eq_of_mem_set hc with hc | rfl
    · exact h.connected c' hc hp
    · exact hconn hp
  lease := h.lease
  op := h.op
  finished := h.finished

theorem LeaseInv.giveLease (h : LeaseInv s) (i : ℕ) (c : Call) :
    LeaseInv (s.giveLease i c false) where
  live := fun c' hc => h.live c' (List.mem_of_mem_eraseIdx hc)
  connected := fun c' hc hp => h.connected c' (List.mem_of_mem_eraseIdx hc) hp
  lease := by
    intro l hl
    rcases List.mem_append.mp hl with hl | hl
    · exact h.lease l hl
    · rw [List.mem_singleton.mp hl]
  op := h.op
  finished := h.finished

theorem LeaseInv.endOp (h : LeaseInv s) (j : ℕ) {o : Op} {r : Except NetstackError ℕ}
    (ho : o.retiredAtStart = true → r = .error .connectionClosed ∧ o.touched = false) :
    LeaseInv (s.endOp j o r) where
  live := h.live
  connected := h.connected
  lease := h.lease
  op := fun o' ho' hr => h.op o' (List.mem_of_mem_eraseIdx ho') hr
  finished := by
    intro d hd hr
    rcases List.mem_append.mp hd with hd | hd
    · exact h.finished d hd hr
    · rw [List.mem_singleton.mp hd] at hr ⊢
      exact ho hr

theorem replace_users (s : State) (policy : GenerationPolicy) (hasIpv6 : Bool)
    (reason : ReplaceReason) :
    (s.replace policy hasIpv6 reason).calls = s.calls ∧
      (s.replace policy hasIpv6 reason).leases = s.leases ∧
      (s.replace policy hasIpv6 reason).ops = s.ops ∧
      (s.replace policy hasIpv6 reason).finished = s.finished := by
  unfold State.replace State.scheduleRetirement
  split
  · exact ⟨rfl, rfl, rfl, rfl⟩
  · split
    · exact ⟨rfl, rfl, rfl, rfl⟩
    · simp only
      split
      · exact ⟨rfl, rfl, rfl, rfl⟩
      · exact ⟨rfl, rfl, rfl, rfl⟩

theorem clear_users (s : State) :
    s.clear.calls = s.calls ∧ s.clear.leases = s.leases ∧ s.clear.ops = s.ops ∧
      s.clear.finished = s.finished := by
  unfold State.clear
  split
  · exact ⟨rfl, rfl, rfl, rfl⟩
  · exact ⟨rfl, rfl, rfl, rfl⟩

theorem step_leaseInv {a : Action} (hinv : GenInv policy s) (h : LeaseInv s)
    (ha : Step policy s a s') : LeaseInv s' := by
  have hret := fun (id : ℕ) (hr : s.retired id = true) => step_retired hinv ha hr
  have hphase {i : ℕ} {c : Call} {b : Bool} (hi : s.calls[i]? = some c) (hp : c.phase = .live b) :
      b = false := by
    refine Bool.eq_false_iff.mpr ?_
    rintro rfl
    exact h.live c (List.mem_of_getElem? hi) hp
  cases ha with
  | tick => exact h.frame hret (fun _ => id) (fun _ => id) (fun _ => id) rfl
  | replace hasIpv6 reason =>
    obtain ⟨hc, hl, ho, hf⟩ := replace_users s policy hasIpv6 reason
    exact h.frame hret (by rw [hc]; exact fun _ => id) (by rw [hl]; exact fun _ => id)
      (by rw [ho]; exact fun _ => id) hf
  | clear =>
    obtain ⟨hc, hl, ho, hf⟩ := clear_users s
    exact h.frame hret (by rw [hc]; exact fun _ => id) (by rw [hl]; exact fun _ => id)
      (by rw [ho]; exact fun _ => id) hf
  | fire => exact h.frame hret (fun _ => id) (fun _ => id) (fun _ => id) rfl
  | expire => exact h.frame hret (fun _ => id) (fun _ => id) (fun _ => id) rfl
  | refuse => exact h.frame hret (fun _ => id) (fun _ => id) (fun _ => id) rfl
  | load hc =>
    refine { h with live := ?_, connected := ?_ }
    · intro c hm
      rcases List.mem_append.mp hm with hm | hm
      · exact h.live c hm
      · rw [List.mem_singleton.mp hm]
        simp
    · intro c hm hp
      rcases List.mem_append.mp hm with hm | hm
      · exact h.connected c hm hp
      · rw [List.mem_singleton.mp hm] at hp
        cases hp
  | check => exact h.setPhase (by simp) (by simp)
  | connect hi hp =>
    refine h.setPhase (by simp) ?_
    intro he
    injection he
  | @dialed i c b hi hp hr =>
    have hb : b = false := by
      refine Bool.eq_false_iff.mpr ?_
      rintro rfl
      rw [h.connected c (List.mem_of_getElem? hi) hp] at hr
      cases hr
    rw [hb]
    exact h.giveLease i c
  | @bind i c b r hi hp =>
    rw [hphase hi hp]
    exact h.giveLease i c
  | fail => exact h.frame hret (fun _ => List.mem_of_mem_eraseIdx) (fun _ => id) (fun _ => id) rfl
  | dropCall =>
    exact h.frame hret (fun _ => List.mem_of_mem_eraseIdx) (fun _ => id) (fun _ => id) rfl
  | startOp hi =>
    refine { h with op := ?_ }
    intro o ho hr
    rcases List.mem_append.mp ho with ho | ho
    · exact h.op o ho hr
    · rw [List.mem_singleton.mp ho] at hr ⊢
      exact ⟨hr, rfl⟩
  | @closedOp j o inner hj hr =>
    exact h.endOp j fun hstart => ⟨rfl, (h.op o (List.mem_of_getElem? hj) hstart).2⟩
  | @innerOp j o r hj hr =>
    refine h.endOp j fun hstart => ?_
    rw [(h.op o (List.mem_of_getElem? hj) hstart).1] at hr
    cases hr
  | @pendingOp j o hj hr =>
    refine { h with op := ?_ }
    intro o' ho hstart
    rcases List.mem_or_eq_of_mem_set ho with ho | rfl
    · exact h.op o' ho hstart
    · rw [(h.op o (List.mem_of_getElem? hj) hstart).1] at hr
      cases hr
  | dropOp => exact h.frame hret (fun _ => id) (fun _ => id) (fun _ => List.mem_of_mem_eraseIdx) rfl
  | dropLease =>
    exact h.frame hret (fun _ => id) (fun _ => List.mem_of_mem_eraseIdx) (fun _ => id) rfl

/-- The life of every generation in every state: (a) the current one is live, (b) a replaced
one drains within its window, (c) nothing passes a retired one, (d) leases start live. -/
structure Lifecycle (policy : GenerationPolicy) (s : State) : Prop where
  current : ∀ id, s.current = some id → s.retired id = false
  drained : ∀ (id : ℕ) (g : Generation) (r : Instant) (reason : ReplaceReason),
    s.gens[id]? = some g → g.replaced = some (r, reason) →
    let grace := policy.graceFor reason
    let floor := r + min minTunnelDrainGrace grace
    (∀ t, g.retiredAt = some t →
      floor ≤ t ∧ t ≤ r + grace ∧ t ≤ max (g.createdAt + policy.maxAge) floor) ∧
    (s.alive id = true → r + grace < s.now ∨ max (g.createdAt + policy.maxAge) floor < s.now →
      g.retiredAt ≠ none)
  closed : ∀ d ∈ s.finished, d.op.retiredAtStart = true →
    d.result = .error .connectionClosed ∧ d.op.touched = false
  polled : ∀ j o inner, s.ops[j]? = some o → o.retiredAtStart = true →
    step policy s (.pollOp j inner) = some (s.endOp j o (.error .connectionClosed)) ∧
      o.touched = false
  leased : ∀ l ∈ s.leases, l.retiredThen = false

theorem lifecycle_of_inv (hg : GenInv policy s) (hl : LeaseInv s) : Lifecycle policy s where
  current := by
    intro id hc
    obtain ⟨g, hx, hret, _⟩ := hg.current id hc
    simp [State.retired, hx, Generation.retired, hret]
  drained := by
    intro id g r reason hx hr
    obtain ⟨hcr, hdue, hnone⟩ := hg.replaced id g r reason hx hr
    have hfloor := floor_le_retirementDelay policy (r - g.createdAt) reason
    have hgrace := retirementDelay_le_grace policy (r - g.createdAt) reason
    have hage := age_add_retirementDelay_le policy (r - g.createdAt) reason
    have hbounds : r + min minTunnelDrainGrace (policy.graceFor reason) ≤ g.due policy r reason ∧
        g.due policy r reason ≤ r + policy.graceFor reason ∧
        g.due policy r reason ≤ max (g.createdAt + policy.maxAge)
          (r + min minTunnelDrainGrace (policy.graceFor reason)) := by
      simp only [Generation.due]
      lia
    refine ⟨?_, ?_⟩
    · intro t ht
      rw [hdue t ht]
      exact hbounds
    · intro halive hlate hn
      rcases hnone hn with htimer | hdead
      · have := (hg.timer id _ htimer).1
        lia
      · rw [hdead] at halive
        cases halive
  closed := hl.finished
  polled := by
    intro j o inner hj hstart
    obtain ⟨hret, htouched⟩ := hl.op o (List.mem_of_getElem? hj) hstart
    exact ⟨by simp [step, hj, hret], htouched⟩
  leased := hl.lease

theorem tunnel_lifecycle {hasIpv6 : Bool} {t₀ : Instant}
    (h : (machine policy).Reachable (State.fromManaged hasIpv6 t₀) s) : Lifecycle policy s := by
  have hinit : LeaseInv (State.fromManaged hasIpv6 t₀) := by
    refine ⟨?_, ?_, ?_, ?_, ?_⟩
    all_goals simp [State.fromManaged]
  have hinv : GenInv policy s ∧ LeaseInv s := by
    refine h.invariant (I := fun s => GenInv policy s ∧ LeaseInv s)
      ⟨.fromManaged hasIpv6 t₀, hinit⟩ ?_
    rintro t a u ⟨hg, hl⟩ ha
    exact ⟨step_genInv hg (step_cases ha), step_leaseInv hg hl (step_cases ha)⟩
  exact lifecycle_of_inv hinv.1 hinv.2

theorem tunnel_lifecycle_drained :
    ∃ s, s.retired 0 = true ∧ s.leases.length = 1 ∧ s.finished.length = 1 ∧
      Lifecycle .default s := by
  have hrun := Machine.reachable_of_run (M := machine .default)
    (s := State.fromManaged true 0)
    [.load (.dial (.v4 1 443)), .check 0, .connect 0 (.ok ()), .replace true .refresh, .dialed 0,
      .tick (.fromSecs 300), .fire 0, .startOp 0 .read, .pollOp 0 none] rfl
  exact ⟨_, rfl, rfl, rfl, tunnel_lifecycle hrun⟩

end WarpRust.Tunnel
