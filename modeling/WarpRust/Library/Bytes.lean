import Mathlib.Algebra.Group.Nat.Defs
import Mathlib.Data.List.Basic
import Mathlib.Data.List.Induction
import Mathlib.Order.Nat

/-!
# Byte strings read by index

Code that reads a byte slice ends with a value, with an error of its own, or in the panic
of an index out of bounds. Numbers on the wire are big-endian.
-/

namespace WarpRust.Library

abbrev Bytes := List UInt8

inductive Checked (ε α : Type) where
  | ok (a : α)
  | err (e : ε)
  | panic
  deriving DecidableEq

namespace Checked
variable {ε α β : Type}

def bind (x : Checked ε α) (f : α → Checked ε β) : Checked ε β :=
  match x with
  | ok a => f a
  | err e => err e
  | panic => panic

instance : Monad (Checked ε) where
  pure := ok
  bind := bind

def reject (c : Bool) (e : ε) : Checked ε Unit := if c then err e else ok ()

def index (b : Bytes) (i : ℕ) : Checked ε UInt8 :=
  match b[i]? with
  | some x => ok x
  | none => panic

def slice (b : Bytes) (i j : ℕ) : Checked ε Bytes :=
  if i ≤ j ∧ j ≤ b.length then ok ((b.take j).drop i) else panic

def sliceFrom (b : Bytes) (i : ℕ) : Checked ε Bytes := slice b i b.length

variable {x : Checked ε α} {f : α → Checked ε β} {a : α} {c : β} {e : ε} {b : Bytes} {i j : ℕ}

@[simp] theorem ok_bind : (ok a >>= f) = f a := rfl
@[simp] theorem err_bind : ((err e : Checked ε α) >>= f) = err e := rfl
@[simp] theorem panic_bind : ((panic : Checked ε α) >>= f) = panic := rfl
@[simp] theorem pure_eq : (pure a : Checked ε α) = ok a := rfl

theorem bind_eq_ok : (x >>= f) = ok c ↔ ∃ a, x = ok a ∧ f a = ok c := by
  cases x <;> simp

@[simp] theorem reject_true : reject true e = err e := rfl
@[simp] theorem reject_false : reject false e = ok () := rfl

theorem reject_bind {c : Bool} {f : Unit → Checked ε β} :
    (reject c e >>= f) = if c then err e else f () := by
  cases c <;> rfl

theorem reject_eq_ok {c : Bool} {u : Unit} : reject c e = ok u ↔ c = false := by
  cases c <;> simp

theorem index_eq_ok {y : UInt8} : (index b i : Checked ε UInt8) = ok y ↔ b[i]? = some y := by
  unfold index
  split <;> simp_all

@[simp] theorem index_zero {y : UInt8} : (index (y :: b) 0 : Checked ε UInt8) = ok y := rfl

@[simp] theorem index_succ {y : UInt8} :
    (index (y :: b) (i + 1) : Checked ε UInt8) = index b i := rfl

theorem index_append {b' : Bytes} (hi : b.length ≤ i) :
    (index (b ++ b') i : Checked ε UInt8) = index b' (i - b.length) := by
  simp only [index, List.getElem?_append_right hi]

theorem slice_eq_ok (hij : i ≤ j) (hj : j ≤ b.length) :
    (slice b i j : Checked ε Bytes) = ok ((b.take j).drop i) := if_pos ⟨hij, hj⟩

theorem sliceFrom_eq_ok (hi : i ≤ b.length) :
    (sliceFrom b i : Checked ε Bytes) = ok (b.drop i) := by
  rw [sliceFrom, slice_eq_ok hi le_rfl, List.take_length]

end Checked

def beNat (b : Bytes) : ℕ := b.foldl (fun n x => n * 256 + x.toNat) 0

def beBytes : ℕ → ℕ → Bytes
  | 0, _ => []
  | width + 1, n => beBytes width (n / 256) ++ [UInt8.ofNat n]

@[simp] theorem beNat_nil : beNat [] = 0 := rfl

@[simp] theorem beNat_concat (b : Bytes) (x : UInt8) :
    beNat (b ++ [x]) = beNat b * 256 + x.toNat := by
  simp [beNat]

@[simp] theorem length_beBytes (width n : ℕ) : (beBytes width n).length = width := by
  induction width generalizing n with
  | zero => rfl
  | succ width ih => simp [beBytes, ih]

theorem beNat_lt (b : Bytes) : beNat b < 256 ^ b.length := by
  induction b using List.reverseRecOn with
  | nil => simp
  | append_singleton b x ih =>
    have hx := x.toNat_lt
    rw [beNat_concat, List.length_append, List.length_singleton, pow_succ]
    omega

theorem beNat_beBytes {width n : ℕ} (h : n < 256 ^ width) : beNat (beBytes width n) = n := by
  induction width generalizing n with
  | zero =>
    rw [pow_zero] at h
    rw [beBytes, beNat_nil]
    omega
  | succ width ih =>
    have hquot : n / 256 < 256 ^ width := by
      rw [pow_succ] at h
      omega
    rw [beBytes, beNat_concat, ih hquot, UInt8.toNat_ofNat']
    omega

theorem beBytes_beNat {width : ℕ} {b : Bytes} (h : b.length = width) :
    beBytes width (beNat b) = b := by
  induction b using List.reverseRecOn generalizing width with
  | nil =>
    subst h
    rfl
  | append_singleton b x ih =>
    subst h
    have hx := x.toNat_lt
    have hquot : (beNat b * 256 + x.toNat) / 256 = beNat b := by omega
    have hlast : UInt8.ofNat (beNat b * 256 + x.toNat) = x := by
      apply UInt8.toNat_inj.mp
      rw [UInt8.toNat_ofNat']
      omega
    rw [List.length_append, List.length_singleton, beNat_concat, beBytes, hquot, hlast, ih rfl]

def ofBe (w : ℕ) (b : Bytes) : BitVec w := .ofNat w (beNat b)

def toBe {w : ℕ} (v : BitVec w) : Bytes := beBytes (w / 8) v.toNat

@[simp] theorem length_toBe {w : ℕ} (v : BitVec w) : (toBe v).length = w / 8 := length_beBytes _ _

theorem pow_bytes {w k : ℕ} (hw : w = 8 * k) : 256 ^ k = 2 ^ w := by
  rw [hw, pow_mul]
  rfl

theorem ofBe_toBe {w k : ℕ} (hw : w = 8 * k) (v : BitVec w) : ofBe w (toBe v) = v := by
  have hk : w / 8 = k := by omega
  have hlt : v.toNat < 256 ^ k := pow_bytes hw ▸ v.isLt
  rw [ofBe, toBe, hk, beNat_beBytes hlt, BitVec.ofNat_toNat, BitVec.setWidth_eq]

theorem exists_toBe_pair (v : BitVec 16) : ∃ a b, toBe v = [a, b] ∧ ofBe 16 [a, b] = v := by
  obtain ⟨a, b, hbytes⟩ := List.length_eq_two.mp (length_toBe v)
  exact ⟨a, b, hbytes, hbytes ▸ ofBe_toBe (k := 2) rfl v⟩

theorem toBe_ofBe {w k : ℕ} {b : Bytes} (hw : w = 8 * k) (hb : b.length = k) :
    toBe (ofBe w b) = b := by
  have hk : w / 8 = k := by omega
  have hlt : beNat b < 2 ^ w := by
    rw [← pow_bytes hw, ← hb]
    exact beNat_lt b
  rw [ofBe, toBe, hk, BitVec.toNat_ofNat, Nat.mod_eq_of_lt hlt, beBytes_beNat hb]

theorem ofBe_eq_zero_iff {w k : ℕ} {b : Bytes} (hw : w = 8 * k) (hb : b.length = k) :
    ofBe w b = 0 ↔ beNat b = 0 := by
  have hlt : beNat b < 2 ^ w := by
    rw [← pow_bytes hw, ← hb]
    exact beNat_lt b
  rw [ofBe, ← BitVec.toNat_inj, BitVec.toNat_ofNat, Nat.mod_eq_of_lt hlt, BitVec.ofNat_eq_ofNat,
    BitVec.toNat_ofNat, Nat.zero_mod]

/-- `std::str::from_utf8`. -/
def fromUtf8 (b : Bytes) : Option String := String.fromUTF8? ⟨b.toArray⟩

def utf8Bytes (s : String) : Bytes := s.toUTF8.data.toList

def ValidUtf8 (b : Bytes) : Prop := (ByteArray.mk b.toArray).IsValidUTF8

theorem utf8Bytes_valid (s : String) : ValidUtf8 (utf8Bytes s) := s.isValidUTF8

theorem fromUtf8_utf8Bytes (s : String) : fromUtf8 (utf8Bytes s) = some s :=
  dif_pos s.isValidUTF8

theorem utf8Bytes_of_fromUtf8 {b : Bytes} {s : String} (h : fromUtf8 b = some s) :
    utf8Bytes s = b := by
  unfold fromUtf8 String.fromUTF8? at h
  split at h
  · cases h
    rfl
  · cases h

theorem fromUtf8_isSome {b : Bytes} (h : ValidUtf8 b) : ∃ s, fromUtf8 b = some s :=
  ⟨_, dif_pos h⟩

@[simp] theorem length_utf8Bytes (s : String) : (utf8Bytes s).length = s.utf8ByteSize := rfl

end WarpRust.Library
