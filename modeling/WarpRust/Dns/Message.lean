import WarpRust.Dns.Cache
import WarpRust.Library.Bytes
import WarpRust.Library.Lists

/-!
# The DNS reply parser

Every read of `parseDnsAnswers` is an indexing that can panic, every sum of offsets one that
can overflow. The grammar of a reply is stated on the bytes alone, whatever follows it.
-/

namespace WarpRust.Dns
open Library Checked

def usizeMax : ℕ := 2 ^ 64 - 1
def isizeMax : ℕ := 2 ^ 63 - 1

/-- `&[u8]`; no slice is longer than `isize::MAX`. -/
structure ByteSlice where
  bytes : Bytes
  fits : bytes.length ≤ isizeMax

/-- `a.checked_add(b).ok_or_else(..)`. -/
def checkedAdd (a b : ℕ) (text : String) : Checked Error ℕ :=
  if a + b ≤ usizeMax then ok (a + b) else err (.ofStr text)

/-! ### The code -/

/-- How one pass of the loop of `skipName` ends. -/
inductive Scan where
  | done (off : ℕ)
  | next (off : ℕ)

def scanLabel (buf : Bytes) (off : ℕ) : Checked Error Scan := do
  reject (buf.length ≤ off) (.ofStr "DNS name out of bounds")
  let b ← index buf off
  if b == 0 then
    return .done (off + 1)
  else if b &&& 0xc0 == 0xc0 then
    let last ← checkedAdd off 2 "DNS compression pointer overflow"
    reject (buf.length < last) (.ofStr "DNS compression pointer truncated")
    return .done last
  else
    reject (b &&& 0xc0 != 0) (.ofStr "invalid DNS label tag")
    return .next (← checkedAdd off (1 + b.toNat) "DNS name offset overflow")

theorem scanLabel_next {buf : Bytes} {off off' : ℕ} (h : scanLabel buf off = ok (.next off')) :
    off < buf.length ∧ off < off' := by
  simp only [scanLabel, bind_eq_ok, reject_eq_ok, decide_eq_false_iff_not, not_le] at h
  obtain ⟨_, hlt, b, _, h⟩ := h
  refine ⟨hlt, ?_⟩
  split at h
  · cases h
  split at h
  · simp only [bind_eq_ok] at h
    obtain ⟨_, _, _, _, h⟩ := h
    cases h
  · simp only [bind_eq_ok, checkedAdd] at h
    obtain ⟨_, _, _, hadd, h⟩ := h
    cases h
    split at hadd
    · cases hadd
      omega
    · cases hadd

def skipName (buf : Bytes) (off : ℕ) : Checked Error ℕ :=
  match h : scanLabel buf off with
  | ok (.done last) => ok last
  | ok (.next off') =>
    have := scanLabel_next h
    skipName buf off'
  | .err e => .err e
  | .panic => .panic
termination_by buf.length - off

def skipQuestions (buf : Bytes) : ℕ → ℕ → Checked Error ℕ
  | 0, off => ok off
  | qd + 1, off => do
    let off ← skipName buf off
    let off ← checkedAdd off 4 "DNS truncated"
    skipQuestions buf qd off

/-- The address in the record data, which starts at `off`, if it is one that was asked for. -/
def readAddress (buf : Bytes) (qtype rtype rclass : BitVec 16) (off rdlen : ℕ)
    (records : RecordSet) :
    Checked Error RecordSet := do
  if rclass == 1 && rtype == qtype then
    if qtype == qtypeA && rdlen == 4 then
      let ip := IpAddr.v4 (ofBe 32
        [← index buf off, ← index buf (off + 1), ← index buf (off + 2), ← index buf (off + 3)])
      return appendNew records ip
    else if qtype == qtypeAaaa && rdlen == 16 then
      let ip := IpAddr.v6 (ofBe 128 (← slice buf off (off + 16)))
      return appendNew records ip
    else
      return records
  else
    return records

def readAnswer (buf : Bytes) (qtype : QType) (off : ℕ) (records : RecordSet) :
    Checked Error (ℕ × RecordSet) := do
  let off ← skipName buf off
  let headerEnd ← checkedAdd off 10 "DNS answer offset overflow"
  reject (buf.length < headerEnd) (.ofStr "DNS answer truncated")
  let rtype := u16FromBeBytes (← index buf off) (← index buf (off + 1))
  let rclass := u16FromBeBytes (← index buf (off + 2)) (← index buf (off + 3))
  let rdlen := (u16FromBeBytes (← index buf (off + 8)) (← index buf (off + 9))).toNat
  let off := headerEnd
  let rdataEnd ← checkedAdd off rdlen "DNS rdata offset overflow"
  reject (buf.length < rdataEnd) (.ofStr "DNS rdata truncated")
  let records ← readAddress buf qtype rtype rclass off rdlen records
  return (rdataEnd, records)

def readAnswers (buf : Bytes) (qtype : QType) : ℕ → ℕ → RecordSet → Checked Error RecordSet
  | 0, _, records => ok records
  | an + 1, off, records => do
    let (off, records) ← readAnswer buf qtype off records
    readAnswers buf qtype an off records

def readSections (reply : Bytes) (qtype : QType) (qd an : ℕ) : Checked Error RecordSet := do
  let off ← skipQuestions reply qd 12
  let records ← readAnswers reply qtype an off []
  reject records.isEmpty
    (.other [.lit "DNS reply has no qtype=", .nat qtype.toNat, .lit " record"])
  return records

def parseDnsAnswers (reply : Bytes) (qtype : QType) (expectedId : BitVec 16) :
    Checked Error RecordSet := do
  reject (reply.length < 12) (.ofStr "DNS reply too short")
  let id := u16FromBeBytes (← index reply 0) (← index reply 1)
  reject (id != expectedId) (.ofStr "DNS transaction ID mismatch")
  let flags := u16FromBeBytes (← index reply 2) (← index reply 3)
  reject (flags &&& 0x8000 == 0) (.ofStr "DNS packet is not a response")
  reject (flags &&& 0x0200 != 0) (.ofStr "truncated DNS UDP response")
  let rcode := flags &&& 0x000f
  reject (rcode != 0) (.other [.lit "DNS response error rcode=", .nat rcode.toNat])
  let qd := (u16FromBeBytes (← index reply 4) (← index reply 5)).toNat
  let an := (u16FromBeBytes (← index reply 6) (← index reply 7)).toNat
  reject (an == 0) (.ofStr "DNS reply has no answer (NXDOMAIN or empty)")
  readSections reply qtype qd an

/-! ### The grammar -/

inductive Name : Bytes → Prop
  | root : Name [0]
  | pointer {hi lo : UInt8} (h : 192 ≤ hi.toNat) : Name [hi, lo]
  | label {len : UInt8} {text rest : Bytes} (hpos : 1 ≤ len.toNat) (hmax : len.toNat ≤ 63)
      (hlen : text.length = len.toNat) (h : Name rest) : Name (len :: text ++ rest)

inductive Question : Bytes → Prop
  | mk {name fields : Bytes} (hname : Name name) (hfields : fields.length = 4) :
      Question (name ++ fields)

structure Record where
  rtype : BitVec 16
  rclass : BitVec 16
  rdata : Bytes

inductive ResourceRecord : Bytes → Record → Prop
  | mk {name ttl : Bytes} {rdlen : BitVec 16} {r : Record} (hname : Name name)
      (httl : ttl.length = 4) (hrdlen : r.rdata.length = rdlen.toNat) :
      ResourceRecord (name ++ toBe r.rtype ++ toBe r.rclass ++ ttl ++ toBe rdlen ++ r.rdata) r

/-- Class IN, the type `qtype` and the length of its addresses. -/
def Record.Asked (qtype : QType) (r : Record) : Prop :=
  r.rclass = 1 ∧ r.rtype = qtype ∧
    (qtype = qtypeA ∧ r.rdata.length = 4 ∨ qtype = qtypeAaaa ∧ r.rdata.length = 16)

def Record.address (qtype : QType) (r : Record) : Option IpAddr :=
  if r.rclass = 1 ∧ r.rtype = qtype then
    if qtype = qtypeA ∧ r.rdata.length = 4 then some (.v4 (ofBe 32 r.rdata))
    else if qtype = qtypeAaaa ∧ r.rdata.length = 16 then some (.v6 (ofBe 128 r.rdata))
    else none
  else none

structure Header where
  id : BitVec 16
  flags : BitVec 16
  qdCount : BitVec 16
  anCount : BitVec 16
  nsCount : BitVec 16
  arCount : BitVec 16

namespace Header

def encode (h : Header) : Bytes :=
  toBe h.id ++ toBe h.flags ++ toBe h.qdCount ++ toBe h.anCount ++ toBe h.nsCount ++ toBe h.arCount

/-- QR is set, TC is clear, RCODE is zero and there is an answer. -/
structure Answers (h : Header) (expectedId : BitVec 16) : Prop where
  id_eq : h.id = expectedId
  response : h.flags.getLsbD 15 = true
  complete : h.flags.getLsbD 9 = false
  noError : h.flags.toNat % 16 = 0
  anCount_pos : 0 < h.anCount.toNat

end Header

inductive Reply (expectedId : BitVec 16) : Bytes → List Record → Prop
  | mk {h : Header} {questions answers : List Bytes} {records : List Record} {trailing : Bytes}
      (hh : h.Answers expectedId)
      (hqd : questions.length = h.qdCount.toNat) (hquestions : ∀ q ∈ questions, Question q)
      (han : answers.length = h.anCount.toNat)
      (hanswers : List.Forall₂ ResourceRecord answers records) :
      Reply expectedId (h.encode ++ questions.flatten ++ answers.flatten ++ trailing) records

/-! ### Names -/

section
variable {buf : Bytes}

theorem checkedAdd_eq {a b : ℕ} {text : String} (h : a + b ≤ usizeMax) :
    checkedAdd a b text = ok (a + b) := if_pos h

theorem isPointer_eq (b : UInt8) : (b &&& 0xc0 == 0xc0) = decide (192 ≤ b.toNat) := by
  have h : ∀ i : Fin 256, (UInt8.ofNat i &&& 0xc0 == 0xc0) = decide (192 ≤ i.val) := by
    decide +kernel
  simpa using h ⟨b.toNat, b.toNat_lt⟩

theorem isTagged_eq (b : UInt8) : (b &&& 0xc0 != 0) = decide (64 ≤ b.toNat) := by
  have h : ∀ i : Fin 256, (UInt8.ofNat i &&& 0xc0 != 0) = decide (64 ≤ i.val) := by
    decide +kernel
  simpa using h ⟨b.toNat, b.toNat_lt⟩

theorem lt_length_of_drop {off : ℕ} {b : UInt8} {tail : Bytes} (h : buf.drop off = b :: tail) :
    off < buf.length ∧ buf.length = off + 1 + tail.length := by
  have hlen := congrArg List.length h
  rw [List.length_drop, List.length_cons] at hlen
  omega

theorem index_of_drop {off : ℕ} {b : UInt8} {tail : Bytes} (h : buf.drop off = b :: tail) :
    (index buf off : Checked Error UInt8) = ok b := by
  rw [index_eq_ok, ← List.head?_drop, h]
  rfl

theorem drop_add_of_drop {off : ℕ} {a b : Bytes} (h : buf.drop off = a ++ b) :
    buf.drop (off + a.length) = b := by
  rw [← List.drop_drop, h, List.drop_left]

theorem scanLabel_eq (fits : buf.length ≤ isizeMax) {off : ℕ} {b : UInt8} {tail : Bytes}
    (h : buf.drop off = b :: tail) :
    scanLabel buf off =
      if b = 0 then ok (.done (off + 1))
      else if 192 ≤ b.toNat then
        if tail = [] then err (.ofStr "DNS compression pointer truncated") else ok (.done (off + 2))
      else if 64 ≤ b.toNat then err (.ofStr "invalid DNS label tag")
      else ok (.next (off + (1 + b.toNat))) := by
  obtain ⟨hlt, hlen⟩ := lt_length_of_drop h
  have hb := b.toNat_lt
  have hfits : off + (1 + b.toNat) ≤ usizeMax ∧ off + 2 ≤ usizeMax := by
    simp only [isizeMax, usizeMax] at fits ⊢
    omega
  simp only [scanLabel, decide_eq_false (not_le.mpr hlt), reject_false, ok_bind, index_of_drop h,
    checkedAdd_eq hfits.1, checkedAdd_eq hfits.2, isPointer_eq, isTagged_eq, beq_iff_eq,
    decide_eq_true_eq, pure_eq]
  split
  · rfl
  split
  · cases tail with
    | nil =>
      rw [decide_eq_true (by rw [hlen]; simp)]
      rfl
    | cons c tail =>
      rw [decide_eq_false (by rw [hlen, List.length_cons]; omega)]
      rfl
  split
  · next htag =>
    rw [decide_eq_true htag]
    rfl
  · next htag =>
    rw [decide_eq_false htag]
    rfl

theorem scanLabel_outside {off : ℕ} (h : buf.drop off = []) :
    scanLabel buf off = err (.ofStr "DNS name out of bounds") := by
  rw [scanLabel, decide_eq_true (List.drop_eq_nil_iff.mp h)]
  rfl

theorem skipName_done {off last : ℕ} (h : scanLabel buf off = ok (.done last)) :
    skipName buf off = ok last := by
  rw [skipName]
  split <;> simp_all

theorem skipName_next {off off' : ℕ} (h : scanLabel buf off = ok (.next off')) :
    skipName buf off = skipName buf off' := by
  rw [skipName]
  split <;> simp_all

theorem skipName_err {off : ℕ} {e : Error} (h : scanLabel buf off = err e) :
    skipName buf off = err e := by
  rw [skipName]
  split <;> simp_all

theorem skipName_complete (fits : buf.length ≤ isizeMax) {name : Bytes} (hname : Name name)
    {off : ℕ} {rest : Bytes} (h : buf.drop off = name ++ rest) :
    skipName buf off = ok (off + name.length) := by
  induction hname generalizing off with
  | root =>
    apply skipName_done
    rw [scanLabel_eq fits h, if_pos rfl]
    rfl
  | @pointer hi lo hhi =>
    apply skipName_done
    have hzero : hi ≠ 0 := by
      rintro rfl
      exact absurd hhi (by decide)
    rw [scanLabel_eq fits h, if_neg hzero, if_pos hhi]
    rfl
  | @label len text name hpos hmax hlen _ ih =>
    have hzero : len ≠ 0 := by
      rintro rfl
      exact absurd hpos (by decide)
    have hscan : scanLabel buf off = ok (.next (off + (1 + len.toNat))) := by
      rw [scanLabel_eq fits h, if_neg hzero, if_neg (by omega), if_neg (by omega)]
    have hlabel : (len :: text).length = 1 + len.toNat := by
      rw [List.length_cons, hlen, Nat.add_comm]
    have hnext : buf.drop (off + (1 + len.toNat)) = name ++ rest := by
      rw [← hlabel]
      exact drop_add_of_drop (by rw [h, List.append_assoc])
    rw [skipName_next hscan, ih hnext, List.length_append, hlabel, Nat.add_assoc]

theorem skipName_cases (fits : buf.length ≤ isizeMax) (off : ℕ) :
    (∃ e, skipName buf off = err e) ∨
    ∃ name rest : Bytes, Name name ∧ buf.drop off = name ++ rest := by
  induction hleft : buf.length - off using Nat.strong_induction_on generalizing off with
  | _ left ih =>
    match hdrop : buf.drop off with
    | [] => exact .inl ⟨_, skipName_err (scanLabel_outside hdrop)⟩
    | b :: tail =>
      obtain ⟨hlt, hlen⟩ := lt_length_of_drop hdrop
      have hscan := scanLabel_eq fits hdrop
      split_ifs at hscan with hzero hpointer hshort htag
      · subst hzero
        exact .inr ⟨[0], tail, .root, rfl⟩
      · exact .inl ⟨_, skipName_err hscan⟩
      · obtain ⟨lo, rest, rfl⟩ := List.exists_cons_of_ne_nil hshort
        exact .inr ⟨[b, lo], rest, .pointer hpointer, rfl⟩
      · exact .inl ⟨_, skipName_err hscan⟩
      · -- The label's own bytes are checked by the next pass, which needs one more byte.
        rcases ih _ (by omega) (off + (1 + b.toNat)) rfl with ⟨e, he⟩ | ⟨name, rest, hname, hrest⟩
        · exact .inl ⟨e, (skipName_next hscan).trans he⟩
        · have htail : tail.drop b.toNat = name ++ rest := by
            rw [← hrest, ← List.drop_drop, hdrop, Nat.add_comm, List.drop_succ_cons]
          have hfull : (tail.take b.toNat).length = b.toNat := by
            have hne : name ≠ [] := by
              rintro rfl
              cases hname
            have := congrArg List.length htail
            rw [List.length_drop, List.length_append] at this
            have := List.length_pos_of_ne_nil hne
            rw [List.length_take]
            omega
          have hpos : 1 ≤ b.toNat := by
            refine Nat.one_le_iff_ne_zero.mpr fun h => hzero ?_
            exact UInt8.toNat_inj.mp h
          refine .inr ⟨b :: tail.take b.toNat ++ name, rest, .label hpos (by omega) hfull hname, ?_⟩
          rw [List.append_assoc, ← htail, List.cons_append, List.take_append_drop]

end

/-! ### Questions and records -/

section
variable {buf : Bytes}

theorem Name.length_pos {name : Bytes} (h : Name name) : 0 < name.length := by
  cases h <;> simp

theorem length_of_drop {off : ℕ} {a b : Bytes} (h : buf.drop off = a ++ b) (ha : 0 < a.length) :
    buf.length = off + a.length + b.length := by
  have hlen := congrArg List.length h
  rw [List.length_drop, List.length_append] at hlen
  omega

theorem checkedAdd_small (fits : buf.length ≤ isizeMax) {a b : ℕ} {text : String}
    (ha : a ≤ buf.length) (hb : b ≤ 65535) : checkedAdd a b text = ok (a + b) := by
  apply checkedAdd_eq
  simp only [isizeMax, usizeMax] at fits ⊢
  omega

theorem skipQuestions_complete (fits : buf.length ≤ isizeMax) {questions : List Bytes}
    (hquestions : ∀ q ∈ questions, Question q) {off : ℕ} {rest : Bytes}
    (h : buf.drop off = questions.flatten ++ rest) :
    skipQuestions buf questions.length off = ok (off + questions.flatten.length) := by
  induction questions generalizing off with
  | nil => rfl
  | cons q questions ih =>
    obtain ⟨⟨hname, hfields⟩, hrest⟩ := List.forall_mem_cons.mp hquestions
    rename_i name fields
    rw [List.flatten_cons, List.append_assoc, List.append_assoc] at h
    have hlen := length_of_drop h hname.length_pos
    have hdrop := drop_add_of_drop (drop_add_of_drop h)
    rw [hfields] at hdrop
    rw [List.length_cons, skipQuestions, skipName_complete fits hname h, ok_bind,
      checkedAdd_small fits (by omega) (by omega), ok_bind, ih hrest hdrop, List.flatten_cons,
      List.length_append, List.length_append, hfields, Nat.add_assoc, Nat.add_assoc, Nat.add_assoc]

theorem skipQuestions_cases (fits : buf.length ≤ isizeMax) (qd off : ℕ) :
    (∃ e, skipQuestions buf qd off = err e) ∨
    ∃ last, skipQuestions buf qd off = ok last ∧ off ≤ last ∧ (last < buf.length →
      ∃ questions : List Bytes, questions.length = qd ∧ (∀ q ∈ questions, Question q) ∧
        buf.drop off = questions.flatten ++ buf.drop last) := by
  induction qd generalizing off with
  | zero => exact .inr ⟨off, rfl, le_rfl, fun _ => ⟨[], rfl, by simp, rfl⟩⟩
  | succ qd ih =>
    rcases skipName_cases fits off with ⟨e, he⟩ | ⟨name, rest, hname, hdrop⟩
    · exact .inl ⟨e, by rw [skipQuestions, he, err_bind]⟩
    · have hlen := length_of_drop hdrop hname.length_pos
      have hstep : skipQuestions buf (qd + 1) off =
          skipQuestions buf qd (off + name.length + 4) := by
        rw [skipQuestions, skipName_complete fits hname hdrop, ok_bind,
          checkedAdd_small fits (by omega) (by omega), ok_bind]
      rw [hstep]
      rcases ih (off + name.length + 4) with herr | ⟨last, hlast, hle, hread⟩
      · exact .inl herr
      · refine .inr ⟨last, hlast, by omega, fun hlt => ?_⟩
        obtain ⟨questions, hqd, hquestions, hquestion⟩ := hread hlt
        have hfields : (rest.take 4).length = 4 := List.length_take_of_le (by omega)
        refine ⟨(name ++ rest.take 4) :: questions, by rw [List.length_cons, hqd],
          List.forall_mem_cons.mpr ⟨.mk hname hfields, hquestions⟩, ?_⟩
        rw [← List.drop_drop, drop_add_of_drop hdrop] at hquestion
        rw [hdrop, List.flatten_cons, List.append_assoc, List.append_assoc, ← hquestion,
          List.take_append_drop]

theorem address_isSome_iff {qtype : QType} {r : Record} :
    (r.address qtype).isSome ↔ r.Asked qtype := by
  unfold Record.address Record.Asked
  split_ifs <;> simp_all

theorem index_add (buf : Bytes) (off i : ℕ) :
    (index buf (off + i) : Checked Error UInt8) = index (buf.drop off) i := by
  simp only [index, List.getElem?_drop]

theorem readAddress_eq (qtype : QType) {r : Record} {off : ℕ} {rest : Bytes} (records : RecordSet)
    (h : buf.drop off = r.rdata ++ rest) :
    readAddress buf qtype r.rtype r.rclass off r.rdata.length records =
      ok ((r.address qtype).elim records (appendNew records)) := by
  unfold readAddress Record.address
  simp only [Bool.and_eq_true, beq_iff_eq]
  split_ifs with hasked hv4 hv6
  · match r.rdata, hv4.2, h with
    | [a, b, c, d], _, h =>
      have hfirst := index_add buf off 0
      simp only [Nat.add_zero] at hfirst
      simp only [hfirst, index_add, h, List.cons_append, index_zero, index_succ, ok_bind, pure_eq,
        Option.elim_some]
  · have hlen := length_of_drop h (by omega)
    have hslice : (slice buf off (off + 16) : Checked Error Bytes) = ok r.rdata := by
      rw [slice_eq_ok (by omega) (by omega), List.drop_take, h, Nat.add_sub_cancel_left, ← hv6.2,
        List.take_left]
    rw [hslice]
    rfl
  · rfl
  · rfl

theorem u16Bytes (v : BitVec 16) : ∃ a b, toBe v = [a, b] ∧ u16FromBeBytes a b = v :=
  exists_toBe_pair v

theorem toBe_u16FromBeBytes (a b : UInt8) : toBe (u16FromBeBytes a b) = [a, b] :=
  toBe_ofBe (k := 2) rfl rfl

theorem readAnswer_eq (fits : buf.length ≤ isizeMax) (qtype : QType) {off : ℕ} {name ttl : Bytes}
    {rtype rclass rdlen : BitVec 16} {data : Bytes} (records : RecordSet) (hname : Name name)
    (httl : ttl.length = 4)
    (h : buf.drop off = name ++ (toBe rtype ++ toBe rclass ++ ttl ++ toBe rdlen ++ data)) :
    readAnswer buf qtype off records =
      if data.length < rdlen.toNat then err (.ofStr "DNS rdata truncated")
      else ok (off + name.length + 10 + rdlen.toNat,
        ((Record.mk rtype rclass (data.take rdlen.toNat)).address qtype).elim records
          (appendNew records)) := by
  obtain ⟨t₀, t₁, htype, rfl⟩ := u16Bytes rtype
  obtain ⟨c₀, c₁, hclass, rfl⟩ := u16Bytes rclass
  obtain ⟨l₀, l₁, hlength, rfl⟩ := u16Bytes rdlen
  rw [htype, hclass, hlength] at h
  match ttl, httl with
  | [x₀, x₁, x₂, x₃], _ =>
    have hlen := length_of_drop h hname.length_pos
    have hfields := drop_add_of_drop h
    have hread : ∀ i, (index buf (off + name.length + i) : Checked Error UInt8) =
        index (t₀ :: t₁ :: c₀ :: c₁ :: x₀ :: x₁ :: x₂ :: x₃ :: l₀ :: l₁ :: data) i := fun i => by
      rw [index_add, hfields]
      rfl
    have hfirst := hread 0
    rw [Nat.add_zero] at hfirst
    have hdata : buf.drop (off + name.length + 10) = data :=
      drop_add_of_drop (a := [t₀, t₁, c₀, c₁, x₀, x₁, x₂, x₃, l₀, l₁]) hfields
    have hrdlen : (u16FromBeBytes l₀ l₁).toNat ≤ 65535 := by omega
    simp only [List.length_append, List.length_cons, List.length_nil] at hlen
    simp only [readAnswer, skipName_complete fits hname h, ok_bind, hfirst, hread, index_zero,
      index_succ]
    rw [checkedAdd_small fits (by omega) (by omega), ok_bind, decide_eq_false (by omega),
      reject_false, ok_bind, checkedAdd_small fits (by omega) hrdlen, ok_bind]
    split
    · next hshort =>
      rw [decide_eq_true (by omega)]
      rfl
    · next hshort =>
      have htake : (data.take (u16FromBeBytes l₀ l₁).toNat).length = (u16FromBeBytes l₀ l₁).toNat :=
        List.length_take_of_le (by omega)
      have haddress := readAddress_eq qtype
        (r := ⟨u16FromBeBytes t₀ t₁, u16FromBeBytes c₀ c₁, data.take (u16FromBeBytes l₀ l₁).toNat⟩)
        records (hdata.trans (List.take_append_drop _ data).symm)
      rw [htake] at haddress
      rw [decide_eq_false (by omega), reject_false, ok_bind, haddress]
      rfl

theorem readAnswer_complete (fits : buf.length ≤ isizeMax) {qtype : QType} {off : ℕ}
    {answer rest : Bytes} {r : Record} (records : RecordSet) (hr : ResourceRecord answer r)
    (h : buf.drop off = answer ++ rest) :
    readAnswer buf qtype off records =
      ok (off + answer.length, (r.address qtype).elim records (appendNew records)) := by
  obtain ⟨hname, httl, hrdlen⟩ := hr
  rename_i name ttl rdlen
  have hsplit : buf.drop off =
      name ++ (toBe r.rtype ++ toBe r.rclass ++ ttl ++ toBe rdlen ++ (r.rdata ++ rest)) := by
    rw [h]
    simp only [List.append_assoc]
  have hlen : off + name.length + 10 + rdlen.toNat =
      off + (name ++ toBe r.rtype ++ toBe r.rclass ++ ttl ++ toBe rdlen ++ r.rdata).length := by
    simp only [List.length_append, length_toBe, httl, hrdlen]
    omega
  rw [readAnswer_eq fits qtype records hname httl hsplit,
    if_neg (by rw [List.length_append]; omega), hlen, ← hrdlen, List.take_left]

theorem ResourceRecord.length_pos {answer : Bytes} {r : Record} (h : ResourceRecord answer r) :
    0 < answer.length := by
  obtain ⟨hname, _, _⟩ := h
  have := hname.length_pos
  simp only [List.length_append]
  omega

theorem readAnswer_cases (fits : buf.length ≤ isizeMax) (qtype : QType) (off : ℕ)
    (records : RecordSet) :
    (∃ e, readAnswer buf qtype off records = err e) ∨
    ∃ (answer rest : Bytes) (r : Record), ResourceRecord answer r ∧
      buf.drop off = answer ++ rest := by
  rcases skipName_cases fits off with ⟨e, he⟩ | ⟨name, rest, hname, hdrop⟩
  · exact .inl ⟨e, by rw [readAnswer, he, err_bind]⟩
  · have hlen := length_of_drop hdrop hname.length_pos
    by_cases hheader : buf.length < off + name.length + 10
    · refine .inl ⟨.ofStr "DNS answer truncated", ?_⟩
      rw [readAnswer, skipName_complete fits hname hdrop, ok_bind,
        checkedAdd_small fits (by omega) (by omega), ok_bind, decide_eq_true hheader]
      rfl
    · match rest, (by omega : 10 ≤ rest.length) with
      | t₀ :: t₁ :: c₀ :: c₁ :: x₀ :: x₁ :: x₂ :: x₃ :: l₀ :: l₁ :: data, _ =>
        have hsplit : buf.drop off = name ++ (toBe (u16FromBeBytes t₀ t₁) ++
            toBe (u16FromBeBytes c₀ c₁) ++ [x₀, x₁, x₂, x₃] ++ toBe (u16FromBeBytes l₀ l₁) ++
            data) := by
          rw [hdrop]
          simp only [toBe_u16FromBeBytes]
          rfl
        have httl : [x₀, x₁, x₂, x₃].length = 4 := rfl
        have heq := readAnswer_eq fits qtype records hname httl hsplit
        split_ifs at heq with hshort
        · exact .inl ⟨_, heq⟩
        · have htake := List.length_take_of_le (not_lt.mp hshort)
          refine .inr ⟨_, data.drop (u16FromBeBytes l₀ l₁).toNat,
            ⟨u16FromBeBytes t₀ t₁, u16FromBeBytes c₀ c₁, data.take (u16FromBeBytes l₀ l₁).toNat⟩,
            .mk hname httl htake, ?_⟩
          rw [hsplit]
          simp only [List.append_assoc, List.take_append_drop]

end

/-! ### The sections -/

section
variable {buf : Bytes}

theorem readAnswers_complete (fits : buf.length ≤ isizeMax) (qtype : QType) {answers : List Bytes}
    {found : List Record} (hanswers : List.Forall₂ ResourceRecord answers found) {off : ℕ}
    {rest : Bytes} (h : buf.drop off = answers.flatten ++ rest) (records : RecordSet) :
    readAnswers buf qtype answers.length off records =
      ok ((found.filterMap (·.address qtype)).foldl appendNew records) := by
  induction hanswers generalizing off records with
  | nil => rfl
  | @cons answer r answers found hr _ ih =>
    rw [List.flatten_cons, List.append_assoc] at h
    rw [List.length_cons, readAnswers, readAnswer_complete fits records hr h, ok_bind]
    refine (ih (drop_add_of_drop h) _).trans ?_
    cases hip : r.address qtype with
    | none => rw [List.filterMap_cons_none hip, Option.elim_none]
    | some ip => rw [List.filterMap_cons_some hip, Option.elim_some, List.foldl_cons]

theorem readAnswers_cases (fits : buf.length ≤ isizeMax) (qtype : QType) (an off : ℕ)
    (records : RecordSet) :
    (∃ e, readAnswers buf qtype an off records = err e) ∨
    ∃ (answers : List Bytes) (found : List Record) (rest : Bytes), answers.length = an ∧
      List.Forall₂ ResourceRecord answers found ∧ buf.drop off = answers.flatten ++ rest := by
  induction an generalizing off records with
  | zero => exact .inr ⟨[], [], buf.drop off, rfl, .nil, rfl⟩
  | succ an ih =>
    rcases readAnswer_cases fits qtype off records with ⟨e, he⟩ | ⟨answer, rest, r, hr, hdrop⟩
    · exact .inl ⟨e, by rw [readAnswers, he, err_bind]⟩
    · rw [readAnswers, readAnswer_complete fits records hr hdrop, ok_bind]
      rcases ih (off + answer.length) ((r.address qtype).elim records (appendNew records))
        with herr | ⟨answers, found, rest', hlen, hanswers, hrest⟩
      · exact .inl herr
      · refine .inr ⟨answer :: answers, r :: found, rest', by rw [List.length_cons, hlen],
          .cons hr hanswers, ?_⟩
        rw [hdrop, List.flatten_cons, List.append_assoc, ← hrest, drop_add_of_drop hdrop]

end

/-! ### The header -/

theorem isResponse_eq (flags : BitVec 16) : (flags &&& 0x8000 == 0) = !flags.getLsbD 15 := by
  have h : flags &&& 0x8000 = if flags.getLsbD 15 then BitVec.twoPow 16 15 else 0 :=
    BitVec.and_twoPow flags 15
  rw [h]
  cases flags.getLsbD 15 <;> rfl

theorem isTruncated_eq (flags : BitVec 16) : (flags &&& 0x0200 != 0) = flags.getLsbD 9 := by
  have h : flags &&& 0x0200 = if flags.getLsbD 9 then BitVec.twoPow 16 9 else 0 :=
    BitVec.and_twoPow flags 9
  rw [h]
  cases flags.getLsbD 9 <;> rfl

theorem rcode_eq (flags : BitVec 16) : (flags &&& 0x000f).toNat = flags.toNat % 16 := by
  rw [BitVec.toNat_and]
  exact Nat.and_two_pow_sub_one_eq_mod flags.toNat 4

theorem rcode_eq_zero (flags : BitVec 16) : flags &&& 0x000f = 0 ↔ flags.toNat % 16 = 0 := by
  rw [← rcode_eq, ← BitVec.toNat_inj]
  rfl

namespace Header
variable {h : Header} {body : Bytes} {qtype : QType} {expectedId : BitVec 16}

@[simp] theorem length_encode (h : Header) : h.encode.length = 12 := by
  simp only [encode, List.length_append, length_toBe]

theorem parse_eq (h : Header) (body : Bytes) (qtype : QType) (expectedId : BitVec 16) :
    parseDnsAnswers (h.encode ++ body) qtype expectedId =
      if h.id ≠ expectedId then err (.ofStr "DNS transaction ID mismatch")
      else if h.flags.getLsbD 15 = false then err (.ofStr "DNS packet is not a response")
      else if h.flags.getLsbD 9 = true then err (.ofStr "truncated DNS UDP response")
      else if h.flags.toNat % 16 ≠ 0 then
        err (.other [.lit "DNS response error rcode=", .nat (h.flags.toNat % 16)])
      else if h.anCount.toNat = 0 then
        err (.ofStr "DNS reply has no answer (NXDOMAIN or empty)")
      else readSections (h.encode ++ body) qtype h.qdCount.toNat h.anCount.toNat := by
  obtain ⟨id, flags, qdCount, anCount, nsCount, arCount⟩ := h
  obtain ⟨i₀, i₁, hi, rfl⟩ := u16Bytes id
  obtain ⟨f₀, f₁, hf, rfl⟩ := u16Bytes flags
  obtain ⟨q₀, q₁, hq, rfl⟩ := u16Bytes qdCount
  obtain ⟨a₀, a₁, ha, rfl⟩ := u16Bytes anCount
  have hlen : ¬ (encode ⟨u16FromBeBytes i₀ i₁, u16FromBeBytes f₀ f₁, u16FromBeBytes q₀ q₁,
      u16FromBeBytes a₀ a₁, nsCount, arCount⟩ ++ body).length < 12 := by
    rw [List.length_append, length_encode]
    omega
  rw [parseDnsAnswers, decide_eq_false hlen]
  simp only [encode, hi, hf, hq, ha, List.cons_append, List.nil_append, reject_false, ok_bind,
    index_zero, index_succ, reject_bind, isResponse_eq, isTruncated_eq, bne_iff_ne, rcode_eq_zero,
    ne_eq, rcode_eq, Bool.not_eq_true', beq_iff_eq]

theorem accepted (hh : h.Answers expectedId) :
    parseDnsAnswers (h.encode ++ body) qtype expectedId =
      readSections (h.encode ++ body) qtype h.qdCount.toNat h.anCount.toNat := by
  have hcomplete : ¬ h.flags.getLsbD 9 = true := by
    rw [hh.complete]
    nofun
  have hresponse : ¬ h.flags.getLsbD 15 = false := by
    rw [hh.response]
    nofun
  rw [parse_eq, if_neg (not_not.mpr hh.id_eq), if_neg hresponse, if_neg hcomplete,
    if_neg (not_not.mpr hh.noError), if_neg hh.anCount_pos.ne']

theorem refused (hh : ¬ h.Answers expectedId) :
    ∃ e, parseDnsAnswers (h.encode ++ body) qtype expectedId = err e := by
  rw [parse_eq]
  split_ifs with hid hresponse htruncated hrcode han
  · exact ⟨_, rfl⟩
  · exact ⟨_, rfl⟩
  · exact ⟨_, rfl⟩
  · exact ⟨_, rfl⟩
  · exact ⟨_, rfl⟩
  · exact absurd ⟨not_not.mp hid, Bool.eq_true_of_not_eq_false hresponse,
      Bool.eq_false_of_not_eq_true htruncated, not_not.mp hrcode, Nat.pos_of_ne_zero han⟩ hh

end Header

theorem header_cases (reply : Bytes) :
    reply.length < 12 ∨ ∃ (h : Header) (body : Bytes), reply = h.encode ++ body := by
  by_cases hlen : reply.length < 12
  · exact .inl hlen
  · right
    match reply, not_lt.mp hlen with
    | i₀ :: i₁ :: f₀ :: f₁ :: q₀ :: q₁ :: a₀ :: a₁ :: n₀ :: n₁ :: r₀ :: r₁ :: body, _ =>
      refine ⟨⟨u16FromBeBytes i₀ i₁, u16FromBeBytes f₀ f₁, u16FromBeBytes q₀ q₁,
        u16FromBeBytes a₀ a₁, u16FromBeBytes n₀ n₁, u16FromBeBytes r₀ r₁⟩, body, ?_⟩
      simp only [Header.encode, toBe_u16FromBeBytes]
      rfl

theorem filterMap_address_eq_nil {qtype : QType} {records : List Record} :
    records.filterMap (·.address qtype) = [] ↔ ¬ ∃ r ∈ records, r.Asked qtype := by
  simp only [List.filterMap_eq_nil_iff, ← address_isSome_iff, not_exists, not_and,
    Option.not_isSome_iff_eq_none]

theorem firstOccurrences_isEmpty {l : List IpAddr} :
    (firstOccurrences l).isEmpty = decide (l = []) := by
  cases l <;> simp [firstOccurrences]

section
variable {h : Header} {questions answers : List Bytes} {found : List Record} {trailing : Bytes}

theorem readSections_complete {buf : Bytes} (fits : buf.length ≤ isizeMax)
    (hbuf : buf = h.encode ++ questions.flatten ++ answers.flatten ++ trailing) (qtype : QType)
    (hquestions : ∀ q ∈ questions, Question q)
    (hanswers : List.Forall₂ ResourceRecord answers found) :
    readSections buf qtype questions.length answers.length =
      if found.filterMap (·.address qtype) = [] then
        err (.other [.lit "DNS reply has no qtype=", .nat qtype.toNat, .lit " record"])
      else ok (firstOccurrences (found.filterMap (·.address qtype))) := by
  have hbody : buf.drop 12 = questions.flatten ++ (answers.flatten ++ trailing) := by
    rw [hbuf, List.append_assoc, List.append_assoc, List.drop_left' h.length_encode]
  rw [readSections, skipQuestions_complete fits hquestions hbody, ok_bind,
    readAnswers_complete fits qtype hanswers (drop_add_of_drop hbody), ok_bind,
    foldl_appendNew_nil, reject_bind, firstOccurrences_isEmpty]
  simp only [decide_eq_true_eq, pure_eq]

theorem readSections_cases {buf body : Bytes} (fits : buf.length ≤ isizeMax)
    (hbuf : buf = h.encode ++ body) (qtype : QType) (qd : ℕ) {an : ℕ} (han : 0 < an) :
    (∃ e, readSections buf qtype qd an = err e) ∨
    ∃ (questions answers : List Bytes) (found : List Record) (trailing : Bytes),
      buf = h.encode ++ questions.flatten ++ answers.flatten ++ trailing ∧
      questions.length = qd ∧ (∀ q ∈ questions, Question q) ∧
      answers.length = an ∧ List.Forall₂ ResourceRecord answers found := by
  rcases skipQuestions_cases fits qd 12 with ⟨e, he⟩ | ⟨last, hlast, _, hread⟩
  · exact .inl ⟨e, by rw [readSections, he, err_bind]⟩
  rcases readAnswers_cases fits qtype an last [] with
    ⟨e, he⟩ | ⟨answers, found, trailing, hlen, hanswers, hdrop⟩
  · exact .inl ⟨e, by rw [readSections, hlast, ok_bind, he, err_bind]⟩
  -- The first record lies inside, so the questions before it do.
  have hinside : last < buf.length := by
    cases hanswers with
    | nil => exact absurd hlen.symm han.ne'
    | cons hr _ =>
      have hpos := hr.length_pos
      rw [List.flatten_cons, List.append_assoc] at hdrop
      have := length_of_drop hdrop hpos
      omega
  obtain ⟨questions, hqd, hquestions, hbody⟩ := hread hinside
  refine .inr ⟨questions, answers, found, trailing, ?_, hqd, hquestions, hlen, hanswers⟩
  rw [hdrop, hbuf, List.drop_left' h.length_encode] at hbody
  rw [hbuf, hbody]
  simp only [List.append_assoc]

end

theorem Reply.parse {expectedId : BitVec 16} {buf : Bytes} {found : List Record}
    (hreply : Reply expectedId buf found) (fits : buf.length ≤ isizeMax) (qtype : QType) :
    parseDnsAnswers buf qtype expectedId =
      if found.filterMap (·.address qtype) = [] then
        err (.other [.lit "DNS reply has no qtype=", .nat qtype.toNat, .lit " record"])
      else ok (firstOccurrences (found.filterMap (·.address qtype))) := by
  obtain ⟨hh, hqd, hquestions, han, hanswers⟩ := hreply
  rename_i h questions answers trailing
  have hsections := readSections_complete fits rfl qtype hquestions hanswers
  rw [hqd, han] at hsections
  rw [← hsections]
  simp only [List.append_assoc]
  exact Header.accepted hh

theorem parse_cases (reply : ByteSlice) (qtype : QType) (expectedId : BitVec 16) :
    (∃ e, parseDnsAnswers reply.bytes qtype expectedId = err e) ∨
    ∃ found, Reply expectedId reply.bytes found := by
  obtain ⟨buf, fits⟩ := reply
  rcases header_cases buf with hshort | ⟨h, body, rfl⟩
  · refine .inl ⟨.ofStr "DNS reply too short", ?_⟩
    rw [parseDnsAnswers, decide_eq_true hshort]
    rfl
  by_cases hh : h.Answers expectedId
  · rw [Header.accepted hh]
    rcases readSections_cases fits rfl qtype h.qdCount.toNat hh.anCount_pos with
      herr | ⟨questions, answers, found, trailing, hbuf, hqd, hquestions, han, hanswers⟩
    · exact .inl herr
    · refine .inr ⟨found, ?_⟩
      change Reply expectedId (h.encode ++ body) found
      rw [hbuf]
      exact .mk hh hqd hquestions han hanswers
  · exact .inl (Header.refused hh)

/-- The parser reads within bounds and accepts its grammar. -/
theorem parseDnsAnswers_grammar (reply : ByteSlice) (qtype : QType) (expectedId : BitVec 16) :
    parseDnsAnswers reply.bytes qtype expectedId ≠ panic ∧
    ∀ records : RecordSet, parseDnsAnswers reply.bytes qtype expectedId = ok records ↔
      ∃ found : List Record, Reply expectedId reply.bytes found ∧
        (∃ r ∈ found, r.Asked qtype) ∧
        records = firstOccurrences (found.filterMap (·.address qtype)) := by
  constructor
  · rcases parse_cases reply qtype expectedId with ⟨e, he⟩ | ⟨found, hreply⟩
    · rw [he]
      nofun
    · rw [hreply.parse reply.fits qtype]
      split <;> nofun
  · intro records
    constructor
    · intro hok
      rcases parse_cases reply qtype expectedId with ⟨e, he⟩ | ⟨found, hreply⟩
      · rw [he] at hok
        cases hok
      · rw [hreply.parse reply.fits qtype] at hok
        split_ifs at hok with hnone
        cases hok
        exact ⟨found, hreply, not_not.mp (mt filterMap_address_eq_nil.mpr hnone), rfl⟩
    · rintro ⟨found, hreply, hasked, rfl⟩
      rw [hreply.parse reply.fits qtype, if_neg]
      exact fun hnone => filterMap_address_eq_nil.mp hnone hasked

end WarpRust.Dns
