import WarpRust.Dns.Message

/-!
# The DNS query

`buildDnsQuery`, the hosts it takes, and the reply to it. A host is read as characters: the
ASCII check comes first, and from there on a character is one byte.
-/

namespace WarpRust.Dns
open Library Checked

abbrev Label := List Char

/-! ### The code -/

/-- `host.strip_suffix('.').unwrap_or(host)` -/
def stripDot (host : String) : List Char :=
  if host.toList.getLast? = some '.' then host.toList.dropLast else host.toList

def asciiBytes (text : List Char) : Bytes := text.map fun c => UInt8.ofNat c.toNat

/-- A character of an ASCII string under `{:?}`. -/
def escapeDebug (c : Char) : List Char :=
  if c = '"' ∨ c = '\\' then ['\\', c]
  else if c = '\t' then "\\t".toList
  else if c = '\r' then "\\r".toList
  else if c = '\n' then "\\n".toList
  else if c.toNat = 0 then "\\0".toList
  else if c.toNat < 32 ∨ c.toNat = 127 then
    "\\u\x7b".toList ++ Nat.toDigits 16 c.toNat ++ "\x7d".toList
  else [c]

def debugText (text : List Char) : String := .ofList ('"' :: text.flatMap escapeDebug ++ ['"'])

def labelBytes (label : Label) : Bytes := UInt8.ofNat label.length :: asciiBytes label

def pushLabels (host : List Char) : List Label → Bytes → Except Error Bytes
  | [], buf => .ok buf
  | label :: labels, buf =>
    if label.isEmpty ∨ 63 < label.length then
      .error (.other [.lit "invalid DNS label length in host ", .lit (debugText host)])
    else
      let buf := buf ++ labelBytes label
      if 255 < buf.length - 12 + 1 then .error (.ofStr "DNS name exceeds 255 wire bytes")
      else pushLabels host labels buf

def buildDnsQuery (host : String) (qtype : QType) (id : BitVec 16) : Except Error Bytes :=
  let host := stripDot host
  if host.isEmpty ∨ ¬ ∀ c ∈ host, c.toNat < 128 then
    .error (.ofStr "DNS host must be non-empty ASCII/punycode")
  else do
    let buf ← pushLabels host (host.splitOn '.') (Header.encode ⟨id, 0x0100, 1, 0, 0, 0⟩)
    return buf ++ [0] ++ toBe qtype ++ toBe (1 : BitVec 16)

/-! ### What a host must be -/

def wireName (labels : List Label) : Bytes := labels.flatMap labelBytes ++ [0]

def Label.Fits (label : Label) : Prop := 1 ≤ label.length ∧ label.length ≤ 63

instance (label : Label) : Decidable label.Fits := inferInstanceAs (Decidable (_ ∧ _))

structure Encodable (host : List Char) : Prop where
  nonempty : host ≠ []
  ascii : ∀ c ∈ host, c.toNat < 128
  labels : ∀ label ∈ host.splitOn '.', Label.Fits label
  wire : (wireName (host.splitOn '.')).length ≤ 255

def question (host : List Char) (qtype : QType) : Bytes :=
  wireName (host.splitOn '.') ++ (toBe qtype ++ toBe (1 : BitVec 16))

section
variable {host : List Char} {labels : List Label} {label : Label} {buf out : Bytes}

@[simp] theorem length_asciiBytes (text : List Char) : (asciiBytes text).length = text.length :=
  List.length_map _

theorem length_wireName : (wireName labels).length = (labels.flatMap labelBytes).length + 1 := by
  rw [wireName, List.length_append, List.length_singleton]

theorem fits_iff : Label.Fits label ↔ ¬ (label.isEmpty ∨ 63 < label.length) := by
  rw [Label.Fits, not_or, not_lt, List.isEmpty_iff, ← List.length_eq_zero_iff,
    Nat.one_le_iff_ne_zero]

/-- The check after each label adds up to one check of the whole name. -/
theorem pushLabels_eq_ok (h12 : 12 ≤ buf.length) (hbuf : buf.length - 12 + 1 ≤ 255) :
    pushLabels host labels buf = .ok out ↔ (∀ label ∈ labels, Label.Fits label) ∧
      buf.length - 12 + (labels.flatMap labelBytes).length + 1 ≤ 255 ∧
      out = buf ++ labels.flatMap labelBytes := by
  induction labels generalizing buf with
  | nil =>
    rw [pushLabels, Except.ok.injEq, List.flatMap_nil, List.append_nil, List.length_nil]
    constructor
    · intro heq
      exact ⟨nofun, hbuf, heq.symm⟩
    · intro ⟨_, _, heq⟩
      exact heq.symm
  | cons label labels ih =>
    rw [pushLabels, List.forall_mem_cons, List.flatMap_cons, List.length_append]
    by_cases hfits : Label.Fits label
    · rw [if_neg (fits_iff.mp hfits), and_iff_right hfits]
      have hnext : (buf ++ labelBytes label).length = buf.length + (labelBytes label).length :=
        List.length_append
      by_cases hlong : 255 < (buf ++ labelBytes label).length - 12 + 1
      · simp only [if_pos hlong]
        refine iff_of_false nofun ?_
        intro ⟨_, hwire, _⟩
        omega
      · simp only [if_neg hlong]
        rw [ih (by omega) (not_lt.mp hlong), hnext, List.append_assoc,
          Nat.sub_add_comm h12, Nat.add_assoc (buf.length - 12)]
    · rw [if_pos (not_not.mp (mt fits_iff.mpr hfits))]
      exact iff_of_false nofun fun h => hfits h.1.1

theorem buildDnsQuery_eq_ok {host : String} {qtype : QType} {id : BitVec 16} {q : Bytes} :
    buildDnsQuery host qtype id = .ok q ↔ Encodable (stripDot host) ∧
      q = Header.encode ⟨id, 0x0100, 1, 0, 0, 0⟩ ++ question (stripDot host) qtype := by
  have h12 : (Header.encode ⟨id, 0x0100, 1, 0, 0, 0⟩).length = 12 := Header.length_encode _
  have hroom : (Header.encode ⟨id, 0x0100, 1, 0, 0, 0⟩).length - 12 + 1 ≤ 255 := by
    rw [h12]
    decide
  have hpush (out : Bytes) := @pushLabels_eq_ok (stripDot host) ((stripDot host).splitOn '.') _ out
    h12.ge hroom
  rw [buildDnsQuery]
  by_cases hhost : (stripDot host).isEmpty ∨ ¬ ∀ c ∈ stripDot host, c.toNat < 128
  · simp only [if_pos hhost]
    refine iff_of_false nofun fun ⟨henc, _⟩ => ?_
    rcases hhost with hempty | hascii
    · exact henc.nonempty (List.isEmpty_iff.mp hempty)
    · exact hascii henc.ascii
  · obtain ⟨hne, hascii⟩ := not_or.mp hhost
    simp only [if_neg hhost]
    cases hrun : pushLabels (stripDot host) ((stripDot host).splitOn '.')
        (Header.encode ⟨id, 0x0100, 1, 0, 0, 0⟩) with
    | error e =>
      refine iff_of_false nofun fun ⟨henc, _⟩ => ?_
      have hok := (hpush _).mpr ⟨henc.labels, by
        have := henc.wire
        rw [length_wireName] at this
        omega, rfl⟩
      rw [hrun] at hok
      cases hok
    | ok out =>
      obtain ⟨hlabels, hwire, rfl⟩ := (hpush out).mp hrun
      have henc : Encodable (stripDot host) := by
        refine ⟨fun hnil => hne (List.isEmpty_iff.mpr hnil), not_not.mp hascii, hlabels, ?_⟩
        rw [length_wireName]
        omega
      rw [and_iff_right henc, question, wireName]
      change Except.ok _ = Except.ok q ↔ _
      rw [Except.ok.injEq, eq_comm]
      simp only [List.append_assoc]

end

/-! ### Reading the query back -/

def asciiText (b : Bytes) : List Char := b.map fun x => Char.ofNat x.toNat

def decodeName : Bytes → Option (List Label)
  | [] => none
  | len :: rest =>
    if len = 0 then some []
    else if 63 < len.toNat ∨ rest.length < len.toNat then none
    else (decodeName (rest.drop len.toNat)).map (asciiText (rest.take len.toNat) :: ·)
termination_by b => b.length
decreasing_by
  rw [List.length_drop, List.length_cons]
  omega

def decodeHost (b : Bytes) : Option (List Char) := (decodeName b).map ['.'].intercalate

structure Encodes (q : Bytes) (host : String) (qtype : QType) (id : BitVec 16) : Prop where
  header : q.take 12 = Header.encode ⟨id, 0x0100, 1, 0, 0, 0⟩
  skip : ∃ last, skipName q 12 = ok last ∧ last + 4 = q.length
  fields : q.drop (q.length - 4) = toBe qtype ++ toBe (1 : BitVec 16)
  labels : decodeHost (q.drop 12) = some (stripDot host)

section
variable {host : List Char} {labels : List Label} {label : Label}

theorem asciiText_asciiBytes {text : List Char} (h : ∀ c ∈ text, c.toNat < 128) :
    asciiText (asciiBytes text) = text := by
  rw [asciiText, asciiBytes, List.map_map]
  refine (List.map_congr_left fun c hc => ?_).trans (List.map_id text)
  have hlt : c.toNat < 2 ^ 8 := (h c hc).trans (by decide)
  rw [Function.comp_apply, UInt8.toNat_ofNat', Nat.mod_eq_of_lt hlt, Char.ofNat_toNat, id]

theorem wireName_cons : wireName (label :: labels) = labelBytes label ++ wireName labels := by
  rw [wireName, List.flatMap_cons, List.append_assoc, wireName]

theorem length_byte (hfits : Label.Fits label) :
    (UInt8.ofNat label.length).toNat = label.length := by
  have hlt : label.length < 2 ^ 8 := hfits.2.trans_lt (by decide)
  rw [UInt8.toNat_ofNat', Nat.mod_eq_of_lt hlt]

theorem name_wireName (hfits : ∀ label ∈ labels, Label.Fits label) : Name (wireName labels) := by
  induction labels with
  | nil => exact .root
  | cons label labels ih =>
    obtain ⟨hlabel, hlabels⟩ := List.forall_mem_cons.mp hfits
    rw [wireName_cons]
    refine .label ?_ ?_ ?_ (ih hlabels)
    · exact (length_byte hlabel).symm ▸ hlabel.1
    · exact (length_byte hlabel).symm ▸ hlabel.2
    · rw [length_byte hlabel, length_asciiBytes]

theorem decodeName_wireName (hfits : ∀ label ∈ labels, Label.Fits label)
    (hascii : ∀ label ∈ labels, ∀ c ∈ label, c.toNat < 128) (rest : Bytes) :
    decodeName (wireName labels ++ rest) = some labels := by
  induction labels with
  | nil =>
    rw [wireName, List.flatMap_nil, List.nil_append, List.singleton_append, decodeName, if_pos rfl]
  | cons label labels ih =>
    obtain ⟨hlabel, hlabels⟩ := List.forall_mem_cons.mp hfits
    obtain ⟨htext, htexts⟩ := List.forall_mem_cons.mp hascii
    have hbyte := length_byte hlabel
    have hnonzero : UInt8.ofNat label.length ≠ 0 := by
      intro hzero
      rw [hzero] at hbyte
      exact absurd hlabel.1 (hbyte ▸ by decide)
    have hroom : ¬ (63 < label.length ∨
        (asciiBytes label ++ (wireName labels ++ rest)).length < label.length) := by
      have := hlabel.2
      rw [List.length_append, length_asciiBytes]
      omega
    rw [wireName_cons, List.append_assoc, labelBytes, List.cons_append, decodeName, if_neg hnonzero,
      hbyte, if_neg hroom, List.drop_left' (length_asciiBytes label),
      List.take_left' (length_asciiBytes label), ih hlabels htexts, asciiText_asciiBytes htext,
      Option.map_some]

theorem mem_of_mem_label {c : Char} (hc : c ∈ label) (hlabel : label ∈ labels) :
    c ∈ ['.'].intercalate labels := by
  induction labels with
  | nil => cases hlabel
  | cons first labels ih =>
    cases labels with
    | nil =>
      rw [List.intercalate_singleton]
      rwa [List.mem_singleton.mp hlabel] at hc
    | cons second labels =>
      rw [List.intercalate_cons_cons, List.mem_append, List.mem_append]
      rcases List.mem_cons.mp hlabel with rfl | hrest
      · exact .inl (.inl hc)
      · exact .inr (ih hrest)

theorem decodeHost_question (henc : Encodable host) (qtype : QType) :
    decodeHost (question host qtype) = some host := by
  have hascii : ∀ label ∈ host.splitOn '.', ∀ c ∈ label, c.toNat < 128 := by
    intro label hlabel c hc
    have hmem := mem_of_mem_label hc hlabel
    rw [List.intercalate_splitOn] at hmem
    exact henc.ascii c hmem
  rw [decodeHost, question, decodeName_wireName henc.labels hascii, Option.map_some,
    List.intercalate_splitOn]

theorem length_question (qtype : QType) :
    (question host qtype).length = (wireName (host.splitOn '.')).length + 4 := by
  rw [question, List.length_append, List.length_append, length_toBe, length_toBe]

end

theorem encodes_of_eq_ok {host : String} {qtype : QType} {id : BitVec 16} {q : Bytes}
    (hq : buildDnsQuery host qtype id = .ok q) : Encodes q host qtype id := by
  obtain ⟨henc, rfl⟩ := buildDnsQuery_eq_ok.mp hq
  have h12 := Header.length_encode ⟨id, 0x0100, 1, 0, 0, 0⟩
  have hbody : (Header.encode ⟨id, 0x0100, 1, 0, 0, 0⟩ ++ question (stripDot host) qtype).drop 12 =
      question (stripDot host) qtype := List.drop_left' h12
  have hlength : (Header.encode ⟨id, 0x0100, 1, 0, 0, 0⟩ ++ question (stripDot host) qtype).length =
      12 + ((wireName ((stripDot host).splitOn '.')).length + 4) := by
    rw [List.length_append, h12, length_question]
  have hwire := henc.wire
  refine ⟨List.take_left' h12, ⟨_, skipName_complete ?_ (name_wireName henc.labels) hbody, ?_⟩, ?_,
    ?_⟩
  · rw [hlength, isizeMax]
    omega
  · rw [hlength]
    omega
  · rw [hlength, ← Nat.add_assoc, Nat.add_sub_cancel, ← List.drop_drop, hbody, question,
      List.drop_left]
  · rw [hbody]
    exact decodeHost_question henc qtype

/-! ### The reply to it -/

/-- A record of a reply: an address of class IN, or a record that is none. -/
inductive Answer where
  | addr (ttl : BitVec 32) (ip : IpAddr)
  | foreign (ttl : BitVec 32) (r : Record)
      (hr : r.rclass ≠ 1 ∨ r.rtype ≠ qtypeA ∧ r.rtype ≠ qtypeAaaa) (hdata : r.rdata.length < 65536)

namespace Answer

def ttl : Answer → BitVec 32
  | addr ttl _ => ttl
  | foreign ttl _ _ _ => ttl

def record : Answer → Record
  | addr _ (.v4 a) => ⟨qtypeA, 1, toBe a⟩
  | addr _ (.v6 a) => ⟨qtypeAaaa, 1, toBe a⟩
  | foreign _ r _ _ => r

def ip (qtype : QType) : Answer → Option IpAddr
  | addr _ (.v4 a) => if qtype = qtypeA then some (.v4 a) else none
  | addr _ (.v6 a) => if qtype = qtypeAaaa then some (.v6 a) else none
  | foreign _ _ _ _ => none

def encode (a : Answer) : Bytes :=
  [0xC0, 0x0C] ++ toBe a.record.rtype ++ toBe a.record.rclass ++ toBe a.ttl ++
    toBe (BitVec.ofNat 16 a.record.rdata.length) ++ a.record.rdata

end Answer

def reply (q : Bytes) (h : Header) (answers : List Answer) : Bytes :=
  h.encode ++ q.drop 12 ++ answers.flatMap Answer.encode

structure Header.Responds (h : Header) (id : BitVec 16) (n : ℕ) : Prop where
  id_eq : h.id = id
  response : h.flags.getLsbD 15 = true
  complete : h.flags.getLsbD 9 = false
  noError : h.flags.toNat % 16 = 0
  qdCount : h.qdCount = 1
  anCount : h.anCount.toNat = n

section
variable {qtype : QType} {a : Answer} {answers : List Answer}

theorem Answer.length_rdata (a : Answer) : a.record.rdata.length < 65536 := by
  match a with
  | addr _ (.v4 bits) =>
    rw [record, length_toBe]
    decide
  | addr _ (.v6 bits) =>
    rw [record, length_toBe]
    decide
  | foreign _ r _ hdata => exact hdata

theorem Answer.resourceRecord (a : Answer) : ResourceRecord a.encode a.record := by
  refine .mk (.pointer (by decide)) (length_toBe _) ?_
  rw [BitVec.toNat_ofNat, Nat.mod_eq_of_lt a.length_rdata]

theorem Answer.address_record (hq : qtype = qtypeA ∨ qtype = qtypeAaaa) (a : Answer) :
    a.record.address qtype = a.ip qtype := by
  match a with
  | addr _ (.v4 bits) =>
    rw [record, Record.address, ip]
    by_cases hA : qtype = qtypeA
    · rw [if_pos ⟨rfl, hA.symm⟩, if_pos ⟨hA, length_toBe _⟩, if_pos hA]
      exact congrArg (fun bits => some (IpAddr.v4 bits)) (ofBe_toBe (k := 4) rfl bits)
    · rw [if_neg fun h => hA h.2.symm, if_neg hA]
  | addr _ (.v6 bits) =>
    rw [record, Record.address, ip]
    by_cases hAaaa : qtype = qtypeAaaa
    · have hA : qtype ≠ qtypeA := hAaaa ▸ by decide
      rw [if_pos ⟨rfl, hAaaa.symm⟩, if_neg fun h => hA h.1, if_pos ⟨hAaaa, length_toBe _⟩,
        if_pos hAaaa]
      exact congrArg (fun bits => some (IpAddr.v6 bits)) (ofBe_toBe (k := 16) rfl bits)
    · rw [if_neg fun h => hAaaa h.2.symm, if_neg hAaaa]
  | foreign _ r hr _ =>
    rw [record, Record.address, ip, if_neg]
    rintro ⟨hclass, rfl⟩
    rcases hr with hr | ⟨hA, hAaaa⟩
    · exact hr hclass
    · exact hq.elim hA hAaaa

theorem Answer.length_encode (a : Answer) : a.encode.length ≤ 65547 := by
  have := a.length_rdata
  simp only [encode, List.length_append, length_toBe, List.length_cons, List.length_nil]
  omega

theorem length_answers (answers : List Answer) :
    (answers.flatMap Answer.encode).length ≤ answers.length * 65547 := by
  induction answers with
  | nil => exact Nat.zero_le _
  | cons a answers ih =>
    have := a.length_encode
    rw [List.flatMap_cons, List.length_append, List.length_cons]
    omega

theorem resourceRecords (answers : List Answer) :
    List.Forall₂ ResourceRecord (answers.map Answer.encode) (answers.map Answer.record) := by
  rw [List.forall₂_map_left_iff, List.forall₂_map_right_iff, List.forall₂_same]
  exact fun a _ => a.resourceRecord

theorem question_question {host : List Char} (henc : Encodable host) (qtype : QType) :
    Question (question host qtype) := by
  refine .mk (name_wireName henc.labels) ?_
  rw [List.length_append, length_toBe, length_toBe]

theorem filterMap_record (hq : qtype = qtypeA ∨ qtype = qtypeAaaa) (answers : List Answer) :
    (answers.map Answer.record).filterMap (·.address qtype) = answers.filterMap (·.ip qtype) := by
  rw [List.filterMap_map]
  exact List.filterMap_congr fun a _ => a.address_record hq

theorem reply_grammar {host : List Char} {q : Bytes} {h : Header} {id : BitVec 16}
    (henc : Encodable host) (hq : q.drop 12 = question host qtype)
    (hh : h.Responds id answers.length) (hne : answers ≠ []) :
    Reply id (reply q h answers) (answers.map Answer.record) := by
  have hanswers : h.Answers id := by
    refine ⟨hh.id_eq, hh.response, hh.complete, hh.noError, ?_⟩
    rw [hh.anCount]
    exact List.length_pos_of_ne_nil hne
  have hquestions : ∀ b ∈ [question host qtype], Question b := by
    intro b hb
    rw [List.mem_singleton.mp hb]
    exact question_question henc qtype
  have hqd : [question host qtype].length = h.qdCount.toNat := by
    rw [hh.qdCount]
    rfl
  have han : (answers.map Answer.encode).length = h.anCount.toNat := by
    rw [List.length_map, hh.anCount]
  have hmk : Reply id (h.encode ++ [question host qtype].flatten ++
      (answers.map Answer.encode).flatten ++ []) (answers.map Answer.record) :=
    .mk hanswers hqd hquestions han (resourceRecords answers)
  rw [List.flatten_singleton, List.append_nil, ← List.flatMap_def] at hmk
  rwa [reply, hq]

theorem length_reply {host : List Char} {q : Bytes} {h : Header} {id : BitVec 16}
    (henc : Encodable host) (hq : q.drop 12 = question host qtype)
    (hh : h.Responds id answers.length) : (reply q h answers).length ≤ isizeMax := by
  have hcount := h.anCount.isLt
  have hanswers := length_answers answers
  have hwire := henc.wire
  rw [hh.anCount] at hcount
  rw [reply, hq, List.length_append, List.length_append, Header.length_encode, length_question,
    isizeMax]
  omega

theorem parse_reply {host : List Char} {q : Bytes} {h : Header} {id : BitVec 16}
    (henc : Encodable host) (hq : q.drop 12 = question host qtype)
    (hqtype : qtype = qtypeA ∨ qtype = qtypeAaaa) (hh : h.Responds id answers.length) :
    (answers.filterMap (·.ip qtype) = [] →
      ∃ e, parseDnsAnswers (reply q h answers) qtype id = err e) ∧
    (answers.filterMap (·.ip qtype) ≠ [] → parseDnsAnswers (reply q h answers) qtype id =
      ok (firstOccurrences (answers.filterMap (·.ip qtype)))) := by
  by_cases hne : answers = []
  · have hnone : ¬ h.Answers id := by
      intro hanswers
      have hpos := hanswers.anCount_pos
      rw [hh.anCount, hne] at hpos
      exact absurd hpos (lt_irrefl 0)
    constructor
    · intro _
      rw [reply, List.append_assoc]
      exact Header.refused hnone
    · intro hip
      rw [hne] at hip
      exact absurd rfl hip
  · have hparse := (reply_grammar henc hq hh hne).parse (length_reply henc hq hh) qtype
    rw [filterMap_record hqtype] at hparse
    rw [hparse]
    constructor
    · intro hip
      rw [if_pos hip]
      exact ⟨_, rfl⟩
    · exact fun hip => if_neg hip

end

/-- A query is built for the hosts that fit, says what was asked, and its replies are read. -/
theorem dnsCodec (host : String) (qtype : QType) (id : BitVec 16) :
    ((∃ q, buildDnsQuery host qtype id = .ok q) ↔ Encodable (stripDot host)) ∧
    ∀ q, buildDnsQuery host qtype id = .ok q →
      Encodes q host qtype id ∧
      (∀ (host' : String) (qtype' : QType) (id' : BitVec 16),
        stripDot host' ≠ stripDot host → buildDnsQuery host' qtype' id' ≠ .ok q) ∧
      (qtype = qtypeA ∨ qtype = qtypeAaaa →
        ∀ (answers : List Answer) (h : Header), h.Responds id answers.length →
          (answers.filterMap (·.ip qtype) = [] →
            ∃ e, parseDnsAnswers (reply q h answers) qtype id = err e) ∧
          (answers.filterMap (·.ip qtype) ≠ [] →
            parseDnsAnswers (reply q h answers) qtype id =
              ok (firstOccurrences (answers.filterMap (·.ip qtype))))) := by
  constructor
  · constructor
    · intro ⟨q, hq⟩
      exact (buildDnsQuery_eq_ok.mp hq).1
    · intro henc
      exact ⟨_, buildDnsQuery_eq_ok.mpr ⟨henc, rfl⟩⟩
  · intro q hq
    refine ⟨encodes_of_eq_ok hq, ?_, ?_⟩
    · intro host' qtype' id' hne hq'
      have hlabels := (encodes_of_eq_ok hq').labels
      rw [(encodes_of_eq_ok hq).labels, Option.some.injEq] at hlabels
      exact hne hlabels.symm
    · intro hqtype answers h hh
      obtain ⟨henc, rfl⟩ := buildDnsQuery_eq_ok.mp hq
      exact parse_reply henc (List.drop_left' (Header.length_encode _)) hqtype hh

theorem dnsCodec_dotted :
    ∃ q, buildDnsQuery "a.b." qtypeA 7 = .ok q ∧ decodeHost (q.drop 12) = some "a.b".toList ∧
      parseDnsAnswers (reply q ⟨7, 0x8180, 1, 2, 0, 0⟩ [.addr 60 (.v4 1), .addr 60 (.v6 1)])
        qtypeA 7 = ok [.v4 1] := by
  have henc : Encodable (stripDot "a.b.") :=
    ⟨by decide, by decide, by decide, by decide⟩
  obtain ⟨hbuild, hall⟩ := dnsCodec "a.b." qtypeA 7
  obtain ⟨q, hq⟩ := hbuild.mpr henc
  obtain ⟨hencodes, _, hreply⟩ := hall q hq
  refine ⟨q, hq, hencodes.labels.trans (by decide), ?_⟩
  have hresponds : (Header.mk 7 0x8180 1 2 0 0).Responds 7 2 :=
    ⟨rfl, by decide, by decide, by decide, rfl, by decide⟩
  exact (hreply (.inl rfl) [.addr 60 (.v4 1), .addr 60 (.v6 1)] _ hresponds).2 (by decide)

end WarpRust.Dns
