import WarpRust.Library.RoundRobin
import WarpRust.Proxy.PortPool

/-!
# Ephemeral ports

The allocator keeps one bit for each port of `32768..=65535` and a cursor. Its bits and its
cursor are the slots and the cursor of a round robin: a port is handed out only while it is
free, allocation fails only when all are in use, and a port comes again only after the cursor
has been all the way round.
-/

namespace WarpRust.Netstack
open Library RoundRobin
open Proxy.PortPool (ephemeralPortCount)

abbrev Port := BitVec 16

def ephemeralPortStart : Port := 32768#16

instance neZero_ephemeralPortCount : NeZero ephemeralPortCount := ⟨by decide⟩

abbrev Idx := Fin ephemeralPortCount

theorem ephemeralPortCount_eq : ephemeralPortCount = 32768 := rfl

structure EphemeralPortAllocator where
  used : Fin (ephemeralPortCount / 64) → BitVec 64
  next : Idx

namespace EphemeralPortAllocator

def word (idx : Idx) : Fin (ephemeralPortCount / 64) :=
  ⟨idx / 64, Nat.div_lt_div_of_lt_of_dvd (by decide) idx.isLt⟩

def bit (idx : Idx) : BitVec 64 := 1#64 <<< (idx.val % 64)

def portOf (idx : Idx) : Port := ephemeralPortStart + BitVec.ofNat 16 idx

def new (random : BitVec 16) : EphemeralPortAllocator := ⟨fun _ => 0#64, Fin.ofNat _ random.toNat⟩

def isFree (a : EphemeralPortAllocator) (idx : Idx) : Bool := a.used (word idx) &&& bit idx == 0#64

def allocate (a : EphemeralPortAllocator) : Option (Port × EphemeralPortAllocator) :=
  ((List.range ephemeralPortCount).find? fun offset => a.isFree (ahead a.next offset)).map
    fun offset =>
      let idx := ahead a.next offset
      (portOf idx,
        { used := Function.update a.used (word idx) (a.used (word idx) ||| bit idx)
          next := ahead idx 1 })

def release (a : EphemeralPortAllocator) (port : Port) : EphemeralPortAllocator :=
  if h : ephemeralPortStart ≤ port ∧ port.toNat - ephemeralPortStart.toNat < ephemeralPortCount then
    let idx : Idx := ⟨port.toNat - ephemeralPortStart.toNat, h.2⟩
    { a with used := Function.update a.used (word idx) (a.used (word idx) &&& ~~~bit idx) }
  else a

/-! ### The bitmap as a set of ports -/

theorem toNat_portOf (idx : Idx) : (portOf idx).toNat = 32768 + idx := by
  have hidx : idx.val < 32768 := idx.isLt
  simp only [portOf, ephemeralPortStart, BitVec.toNat_add, BitVec.toNat_ofNat]
  omega

theorem portOf_inj {i j : Idx} (h : portOf i = portOf j) : i = j := by
  have hval := congrArg BitVec.toNat h
  rw [toNat_portOf, toNat_portOf] at hval
  exact Fin.ext (by omega)

theorem exists_portOf {p : Port} (h : ephemeralPortStart ≤ p) : ∃ i, portOf i = p := by
  have hle : 32768 ≤ p.toNat := h
  have hp := p.isLt
  refine ⟨⟨p.toNat - 32768, by rw [ephemeralPortCount_eq]; omega⟩, BitVec.eq_of_toNat_eq ?_⟩
  rw [toNat_portOf]
  exact Nat.add_sub_cancel' hle

theorem start_le_portOf (i : Idx) : ephemeralPortStart ≤ portOf i := by
  change 32768 ≤ (portOf i).toNat
  rw [toNat_portOf]
  omega

theorem word_bit_inj {i j : Idx} (hw : word i = word j) (hb : i.val % 64 = j.val % 64) : i = j := by
  have hdiv : i.val / 64 = j.val / 64 := congrArg Fin.val hw
  apply Fin.ext
  omega

variable (a : EphemeralPortAllocator) (i j : Idx)

theorem isFree_eq : a.isFree i = !(a.used (word i)).getLsbD (i % 64) := by
  have hlt : i.val % 64 < 64 := Nat.mod_lt _ (by decide)
  have hbit : bit i = BitVec.twoPow 64 (i % 64) := rfl
  rw [isFree, hbit, BitVec.and_twoPow]
  cases hget : (a.used (word i)).getLsbD (i % 64) with
  | true =>
    have hne : BitVec.twoPow 64 (i % 64) ≠ 0#64 := by
      intro he
      have hone := congrArg (·.getLsbD (i % 64)) he
      simp [hlt] at hone
    simpa using hne
  | false => simp

theorem getLsbD_bit (k : ℕ) : (bit i).getLsbD k = decide (k = i % 64) := by
  have hlt : i.val % 64 < 64 := Nat.mod_lt _ (by decide)
  have hbit : bit i = BitVec.twoPow 64 (i % 64) := rfl
  rw [hbit, BitVec.getLsbD_twoPow]
  simp only [hlt, decide_true, Bool.true_and, eq_comm]

theorem isFree_update {w : BitVec 64} {next : Idx} (hne : ∀ k : ℕ, k < 64 → k ≠ i % 64 →
      w.getLsbD k = (a.used (word i)).getLsbD k) (hji : j ≠ i) :
    isFree ⟨Function.update a.used (word i) w, next⟩ j = a.isFree j := by
  rw [isFree_eq, isFree_eq]
  dsimp only
  by_cases hword : word j = word i
  · have hbit : j.val % 64 ≠ i.val % 64 := fun hb => hji (word_bit_inj hword hb)
    rw [hword, Function.update_self, hne _ (Nat.mod_lt _ (by decide)) hbit]
  · rw [Function.update_of_ne hword]

theorem isFree_update_self {w : BitVec 64} {next : Idx} :
    isFree ⟨Function.update a.used (word i) w, next⟩ i = !w.getLsbD (i % 64) := by
  rw [isFree_eq]
  dsimp only
  rw [Function.update_self]

def slots (a : EphemeralPortAllocator) : Slots ephemeralPortCount :=
  ⟨Finset.univ.filter fun i => a.isFree i = false, a.next⟩

@[simp] theorem mem_slots : i ∈ a.slots.taken ↔ a.isFree i = false := by simp [slots]

theorem slots_allocated (next : Idx) :
    slots ⟨Function.update a.used (word i) (a.used (word i) ||| bit i), next⟩ =
      ⟨insert i a.slots.taken, next⟩ := by
  refine congrArg (Slots.mk · next) (Finset.ext fun j => ?_)
  rw [Finset.mem_insert, mem_slots, Finset.mem_filter_univ]
  by_cases hji : j = i
  · subst hji
    rw [isFree_update_self]
    simp [getLsbD_bit]
  · rw [isFree_update a i j (by intro k _ hk; simp [getLsbD_bit, hk]) hji]
    simp [hji]

theorem slots_released :
    slots { a with used := Function.update a.used (word i) (a.used (word i) &&& ~~~bit i) } =
      ⟨a.slots.taken.erase i, a.next⟩ := by
  refine congrArg (Slots.mk · a.next) (Finset.ext fun j => ?_)
  rw [Finset.mem_erase, mem_slots, Finset.mem_filter_univ]
  by_cases hji : j = i
  · subst hji
    rw [isFree_update_self]
    simp [getLsbD_bit]
  · have hsame (k : ℕ) (hk : k < 64) (hne : k ≠ i.val % 64) :
        (a.used (word i) &&& ~~~bit i).getLsbD k = (a.used (word i)).getLsbD k := by
      rw [BitVec.getLsbD_and, BitVec.getLsbD_not, getLsbD_bit]
      simp [hk, hne]
    rw [isFree_update a i j hsame hji]
    simp [hji]

/-! ### What each operation does -/

def afterAllocate (a : EphemeralPortAllocator) : EphemeralPortAllocator :=
  a.allocate.elim a Prod.snd

variable {a} {i}

theorem allocate_some {p : Port} {b : EphemeralPortAllocator} (h : a.allocate = some (p, b)) :
    ∃ i, p = portOf i ∧ (RoundRobin.machine ephemeralPortCount).step a.slots (.claim i) =
      some b.slots := by
  obtain ⟨offset, hfind, hpb⟩ := Option.map_eq_some_iff.mp h
  obtain ⟨hfree, hmem, hbefore⟩ := List.find?_range_eq_some.mp hfind
  obtain ⟨rfl, rfl⟩ := Prod.mk.inj hpb
  have hlt := List.mem_range.mp hmem
  refine ⟨ahead a.next offset, rfl, ?_⟩
  have hfirst : a.slots.FirstFree (ahead a.next offset) := by
    refine ⟨by simp [hfree], fun j hj => ?_⟩
    have hj' : around a.next j < offset := by simpa [slots, around_ahead hlt] using hj
    have hbusy := hbefore _ hj'
    rw [ahead_around] at hbusy
    simpa using hbusy
  rw [slots_allocated]
  exact claim_firstFree hfirst

theorem allocate_none : a.allocate = none ↔ ∀ i, i ∈ a.slots.taken := by
  rw [allocate, Option.map_eq_none_iff, List.find?_eq_none]
  constructor
  · intro h i
    have hi := h (around a.next i) (List.mem_range.mpr (around_lt a.next i))
    rw [ahead_around] at hi
    simpa using hi
  · intro h offset _
    simpa using h (ahead a.next offset)

theorem allocate_firstFree (h : a.slots.FirstFree i) : ∃ b, a.allocate = some (portOf i, b) := by
  cases hal : a.allocate with
  | none => exact absurd (allocate_none.mp hal i) h.1
  | some r =>
    obtain ⟨j, hj, hstep⟩ := allocate_some hal
    rw [h.unique (step_claim hstep).1, ← hj]
    exact ⟨r.2, rfl⟩

theorem release_portOf (a : EphemeralPortAllocator) (i : Idx) :
    (a.release (portOf i)).slots = ⟨a.slots.taken.erase i, a.next⟩ := by
  have hi : (portOf i).toNat - ephemeralPortStart.toNat = i := by
    rw [toNat_portOf]
    exact Nat.add_sub_cancel_left 32768 i
  rw [release, dif_pos ⟨start_le_portOf i, by rw [hi]; exact i.isLt⟩]
  simp only [hi, Fin.eta]
  exact slots_released a i

theorem release_below {p : Port} (h : ¬ ephemeralPortStart ≤ p) : a.release p = a :=
  dif_neg fun hp => h hp.1

end EphemeralPortAllocator

/-! ### Runs of the allocator -/

inductive PortOp where
  | allocate
  | release (port : Port)

namespace EphemeralPortAllocator

def step (a : EphemeralPortAllocator) : PortOp → Option EphemeralPortAllocator
  | .allocate => some a.afterAllocate
  | .release port => some (a.release port)

def machine : Machine EphemeralPortAllocator PortOp := ⟨step⟩

def handed (x : Taken EphemeralPortAllocator PortOp) : Option Port :=
  match x.action with
  | .allocate => x.before.allocate.map Prod.fst
  | .release _ => none

def outstanding (l : List (Taken EphemeralPortAllocator PortOp)) : Finset Port :=
  l.foldl (fun held x =>
    match x.action with
    | .allocate => (handed x).elim held fun p => insert p held
    | .release port => held.erase port) ∅

def ports (a : EphemeralPortAllocator) : Finset Port := a.slots.taken.image portOf

def slotOf (p : Port) : Idx := Fin.ofNat ephemeralPortCount (p.toNat - ephemeralPortStart.toNat)

/-- What a transition is for the round robin; a port outside the range is not one of its slots. -/
def slotEvent (x : Taken EphemeralPortAllocator PortOp) : Option (Event ephemeralPortCount) :=
  match x.action with
  | .allocate => some ((handed x).elim .full fun p => .claim (slotOf p))
  | .release port => if ephemeralPortStart ≤ port then some (.release (slotOf port)) else none

variable {a b s t : EphemeralPortAllocator} {i : Idx} {p q : Port}
  {l l₁ l₂ l₃ : List (Taken EphemeralPortAllocator PortOp)}

theorem step_cases {op : PortOp} (h : machine.step a op = some b) :
    (op = .allocate ∧ ∃ p, a.allocate = some (p, b)) ∨
    (op = .allocate ∧ a.allocate = none ∧ b = a) ∨ ∃ p, op = .release p ∧ b = a.release p := by
  cases op with
  | allocate =>
    have hb : a.afterAllocate = b := Option.some.inj h
    rw [afterAllocate] at hb
    cases hal : a.allocate with
    | none => exact .inr (.inl ⟨rfl, rfl, by rw [← hb, hal]; rfl⟩)
    | some r => exact .inl ⟨rfl, r.1, by rw [← hb, hal]; rfl⟩
  | release port => exact .inr (.inr ⟨port, rfl, (Option.some.inj h).symm⟩)

theorem slotOf_portOf (i : Idx) : slotOf (portOf i) = i := by
  have hi : (portOf i).toNat - ephemeralPortStart.toNat = i := by
    rw [toNat_portOf]
    exact Nat.add_sub_cancel_left 32768 i
  rw [slotOf, hi]
  exact Fin.ofNat_val_eq_self i

theorem portOf_mem_ports : portOf i ∈ a.ports ↔ i ∈ a.slots.taken := by
  rw [ports, Finset.mem_image]
  constructor
  · rintro ⟨j, hj, hij⟩
    exact portOf_inj hij ▸ hj
  · intro hi
    exact ⟨i, hi, rfl⟩

theorem start_le_of_mem_ports (h : p ∈ a.ports) : ephemeralPortStart ≤ p := by
  obtain ⟨i, _, rfl⟩ := Finset.mem_image.mp h
  exact start_le_portOf i

theorem ports_allocate (h : a.allocate = some (p, b)) : b.ports = insert p a.ports := by
  obtain ⟨i, rfl, hstep⟩ := allocate_some h
  obtain ⟨_, hb⟩ := step_claim hstep
  rw [ports, hb, Finset.image_insert, ports]

theorem ports_release (a : EphemeralPortAllocator) (p : Port) :
    (a.release p).ports = a.ports.erase p := by
  by_cases hp : ephemeralPortStart ≤ p
  · obtain ⟨i, rfl⟩ := exists_portOf hp
    rw [ports, release_portOf, ports]
    exact Finset.image_erase (fun _ _ => portOf_inj) _ _
  · rw [release_below hp, Finset.erase_eq_of_notMem]
    exact fun hmem => hp (start_le_of_mem_ports hmem)

theorem allocate_not_mem (h : a.allocate = some (p, b)) :
    ephemeralPortStart ≤ p ∧ p ∉ a.ports := by
  obtain ⟨i, rfl, hstep⟩ := allocate_some h
  exact ⟨start_le_portOf i, fun hmem => (step_claim hstep).1.1 (portOf_mem_ports.mp hmem)⟩

theorem allocate_none_iff : a.allocate = none ↔ ∀ p, ephemeralPortStart ≤ p → p ∈ a.ports := by
  rw [allocate_none]
  constructor
  · intro h p hp
    obtain ⟨i, rfl⟩ := exists_portOf hp
    exact portOf_mem_ports.mpr (h i)
  · intro h i
    exact portOf_mem_ports.mp (h _ (start_le_portOf i))

theorem ports_new (random : BitVec 16) : (new random).ports = ∅ := by
  rw [ports, Finset.image_eq_empty, Finset.eq_empty_iff_forall_notMem]
  intro i hi
  rw [mem_slots, isFree_eq] at hi
  simp [new] at hi

theorem ports_eq_outstanding {random : BitVec 16} (h : machine.Exec (new random) l a) :
    a.ports = outstanding l := by
  induction h with
  | nil => exact ports_new random
  | @snoc l t u op _ ha ih =>
    rw [outstanding, List.foldl_append, ← outstanding, ← ih]
    rcases step_cases ha with ⟨rfl, p, hal⟩ | ⟨rfl, hal, rfl⟩ | ⟨port, rfl, rfl⟩
    · simpa [handed, hal] using ports_allocate hal
    · simp [handed, hal]
    · exact ports_release t port

theorem allocate_new (random : BitVec 16) :
    (new random).allocate = some (portOf (new random).next, (new random).afterAllocate) := by
  have hfree : (new random).slots.FirstFree (new random).next := by
    refine ⟨fun hmem => ?_, fun j hj => ?_⟩
    · have hport := portOf_mem_ports.mpr hmem
      rw [ports_new] at hport
      cases hport
    · exact absurd hj (by simp [slots, around_self])
  obtain ⟨b, hal⟩ := allocate_firstFree hfree
  rw [afterAllocate, hal]
  rfl

theorem allocate_from_outstanding {random : BitVec 16} (h : machine.Exec (new random) l a) :
    (∀ p b, a.allocate = some (p, b) → ephemeralPortStart ≤ p ∧ p ∉ outstanding l) ∧
      (a.allocate = none ↔ ∀ p, ephemeralPortStart ≤ p → p ∈ outstanding l) := by
  rw [← ports_eq_outstanding h]
  exact ⟨fun p b hal => allocate_not_mem hal, allocate_none_iff⟩

theorem allocate_from_outstanding_twice :
    let a := (new 5#16).afterAllocate
    let l := [⟨new 5#16, .allocate, a⟩, ⟨a, .allocate, a.afterAllocate⟩]
    (∀ p b, a.afterAllocate.allocate = some (p, b) →
      ephemeralPortStart ≤ p ∧ p ∉ outstanding l) ∧
        (a.afterAllocate.allocate = none ↔ ∀ p, ephemeralPortStart ≤ p → p ∈ outstanding l) :=
  allocate_from_outstanding (.cons rfl (.cons rfl .nil))

/-! ### Going round -/

theorem slotEvent_step {x : Taken EphemeralPortAllocator PortOp}
    (ha : machine.step x.before x.action = some x.after) :
    (slotEvent x).elim (x.before.slots = x.after.slots) fun e =>
      (RoundRobin.machine ephemeralPortCount).step x.before.slots e = some x.after.slots := by
  obtain ⟨a, op, b⟩ := x
  rcases step_cases (a := a) (b := b) ha with ⟨rfl, p, hal⟩ | ⟨rfl, hal, rfl⟩ | ⟨port, rfl, rfl⟩
  · obtain ⟨i, rfl, hstep⟩ := allocate_some hal
    simpa only [slotEvent, handed, hal, Option.map_some, Option.elim_some, slotOf_portOf]
      using hstep
  · simpa only [slotEvent, handed, hal, Option.map_none, Option.elim_none, Option.elim_some]
      using step_full (allocate_none.mp hal)
  · by_cases hp : ephemeralPortStart ≤ port
    · obtain ⟨i, rfl⟩ := exists_portOf hp
      simp only [slotEvent, if_pos hp, Option.elim_some, slotOf_portOf, release_portOf]
      rfl
    · simp only [slotEvent, if_neg hp, Option.elim_none, release_below hp]

theorem claim_of_handed {x : Taken EphemeralPortAllocator PortOp} (hx : handed x = some p)
    (ha : machine.step x.before x.action = some x.after) : ∃ i, p = portOf i ∧
      (RoundRobin.machine ephemeralPortCount).step x.before.slots (.claim i) =
        some x.after.slots := by
  obtain ⟨a, op, b⟩ := x
  rcases step_cases (a := a) (b := b) ha with ⟨rfl, q, hal⟩ | ⟨rfl, hal, rfl⟩ | ⟨port, rfl, rfl⟩
  · obtain ⟨i, rfl, hstep⟩ := allocate_some hal
    obtain rfl : portOf i = p := by simpa [handed, hal] using hx
    exact ⟨i, rfl, hstep⟩
  · simp [handed, hal] at hx
  · cases hx

/-- Between two times a port is handed out, every other port was in use at some moment. -/
theorem handed_again_after_round {x y : Taken EphemeralPortAllocator PortOp}
    (h : machine.Exec s (l₁ ++ x :: (l₂ ++ y :: l₃)) t) (hx : handed x = some p)
    (hy : handed y = some p) (hq : ephemeralPortStart ≤ q) (hne : q ≠ p) :
    q ∈ x.after.ports ∨ ∃ z ∈ l₂, q ∈ z.after.ports := by
  obtain ⟨j, rfl⟩ := exists_portOf hq
  obtain ⟨hbetween, hylast⟩ := h.from_after.split
  obtain ⟨i, rfl, hfirst⟩ := claim_of_handed hx h.split.2
  obtain ⟨i', hii', hagain⟩ := claim_of_handed hy hylast
  obtain rfl := portOf_inj hii'
  have hslots := hbetween.simulate slots slotEvent fun _ => slotEvent_step
  have hji : j ≠ i := fun he => hne (congrArg portOf he)
  rcases taken_between hfirst hslots hagain hji with hu | ⟨e, he, hj⟩
  · exact .inl (portOf_mem_ports.mpr hu)
  · obtain ⟨z, hz, hze⟩ := List.mem_filterMap.mp he
    obtain ⟨_, _, rfl⟩ := Option.map_eq_some_iff.mp hze
    exact .inr ⟨z, hz, portOf_mem_ports.mpr hj⟩

def lone : EphemeralPortAllocator := ⟨fun w => if w.val = 0 then ~~~1#64 else BitVec.allOnes 64, 7⟩

theorem lone_isFree (i : Idx) : lone.isFree i = decide (i = 0) := by
  rw [isFree_eq, lone]
  have hlt : i.val % 64 < 64 := Nat.mod_lt _ (by decide)
  by_cases hw : (word i).val = 0
  · have hi : i.val / 64 = 0 := hw
    have hzero : i.val % 64 = 0 ↔ i = 0 := by
      rw [← Fin.val_eq_zero_iff]
      omega
    simp only [hw, if_true, BitVec.getLsbD_not, hlt, decide_true, Bool.true_and, Bool.not_not,
      BitVec.getLsbD_one]
    simp [hzero]
  · have hi : i ≠ 0 := by
      rintro rfl
      exact hw rfl
    simp only [hw, if_false, BitVec.getLsbD_allOnes, hlt, hi, decide_true, decide_false,
      Bool.not_true]

theorem lone_taken : lone.slots.taken = Finset.univ.erase 0 := by
  ext i
  simp [lone_isFree]

theorem lone_released (h : a.slots.taken = Finset.univ.erase i) :
    a.allocate = some (portOf i, a.afterAllocate) ∧
      (a.afterAllocate.release (portOf i)).slots.taken = Finset.univ.erase i := by
  obtain ⟨b, hal⟩ := allocate_firstFree (Slots.firstFree_of_lone h)
  have hb : a.afterAllocate = b := by rw [afterAllocate, hal]; rfl
  obtain ⟨j, hj, hstep⟩ := allocate_some hal
  obtain ⟨_, hslots⟩ := step_claim hstep
  rw [hb, release_portOf, hslots, portOf_inj hj, h, ← portOf_inj hj]
  exact ⟨hal, by simp⟩

def third : Idx := ⟨3, by decide⟩

theorem handed_again_after_round_lone :
    portOf third ∈ lone.afterAllocate.ports ∨
      ∃ z ∈ [(⟨lone.afterAllocate, .release (portOf 0), lone.afterAllocate.release (portOf 0)⟩ :
        Taken EphemeralPortAllocator PortOp)], portOf third ∈ z.after.ports := by
  obtain ⟨hfirst, hlone⟩ := lone_released lone_taken
  obtain ⟨hagain, _⟩ := lone_released hlone
  have hrun : machine.Exec lone ([] ++ ⟨lone, .allocate, lone.afterAllocate⟩ ::
      ([⟨lone.afterAllocate, .release (portOf 0), lone.afterAllocate.release (portOf 0)⟩] ++
        ⟨_, .allocate, _⟩ :: [])) _ := .cons rfl (.cons rfl (.cons rfl .nil))
  have hne : portOf third ≠ portOf 0 := fun he => Fin.ne_of_val_ne (by decide) (portOf_inj he)
  have hx : handed ⟨lone, .allocate, lone.afterAllocate⟩ = some (portOf 0) := by
    rw [handed, hfirst, Option.map_some]
  have hy : handed ⟨lone.afterAllocate.release (portOf 0), .allocate,
      (lone.afterAllocate.release (portOf 0)).afterAllocate⟩ = some (portOf 0) := by
    rw [handed, hagain, Option.map_some]
  have hround := handed_again_after_round hrun hx hy (start_le_portOf third) hne
  dsimp only at hround
  exact hround

end EphemeralPortAllocator
end WarpRust.Netstack
