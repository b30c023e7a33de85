import Mathlib.Logic.Basic

/-!
# Weakest preconditions for programs with a state and errors

`wp x Q s` says that `x` started in `s` ends with `Q`, of the value or the error and of the
state it leaves. An error keeps the state, as a Rust function that returns early does. The
rules are equivalences, so they compute a precondition exactly, in both directions.
-/

namespace WarpRust.Library
universe u
variable {ε σ τ α β : Type u}

def wp (x : EStateM ε σ α) (Q : Except ε α → σ → Prop) (s : σ) : Prop :=
  match x s with
  | .ok a t => Q (.ok a) t
  | .error e t => Q (.error e) t

def andThen (f : α → EStateM ε σ β) (Q : Except ε β → σ → Prop) : Except ε α → σ → Prop
  | .ok a, t => wp (f a) Q t
  | .error e, t => Q (.error e) t

/-- `x` with the errors that `p` accepts turned into values. -/
def attempt {δ : Type u} (p : ε → Option δ) (x : EStateM ε σ α) : EStateM ε σ (Except δ α) :=
  fun s =>
    match x s with
    | .ok a t => .ok (.ok a) t
    | .error e t =>
      match p e with
      | some d => .ok (.error d) t
      | none => .error e t

structure Lens (σ τ : Type u) where
  get : σ → τ
  set : σ → τ → σ

def zoom (l : Lens σ τ) (x : EStateM ε τ α) : EStateM ε σ α :=
  fun s =>
    match x (l.get s) with
    | .ok a t => .ok a (l.set s t)
    | .error e t => .error e (l.set s t)

section rules
variable {x : EStateM ε σ α} {Q R : Except ε α → σ → Prop} {s : σ}

@[simp] theorem andThen_ok {f : α → EStateM ε σ β} {Q : Except ε β → σ → Prop} {a : α} :
    andThen f Q (.ok a) s = wp (f a) Q s := rfl

@[simp] theorem andThen_error {f : α → EStateM ε σ β} {Q : Except ε β → σ → Prop} {e : ε} :
    andThen f Q (.error e) s = Q (.error e) s := rfl

@[simp] theorem wp_pure {a : α} : wp (pure a : EStateM ε σ α) Q s = Q (.ok a) s := rfl

@[simp] theorem wp_throw {e : ε} : wp (throw e : EStateM ε σ α) Q s = Q (.error e) s := rfl

@[simp] theorem wp_get {Q : Except ε σ → σ → Prop} : wp get Q s = Q (.ok s) s := rfl

@[simp] theorem wp_modify {f : σ → σ} {Q : Except ε PUnit → σ → Prop} :
    wp (modify f) Q s = Q (.ok ⟨⟩) (f s) := rfl

@[simp] theorem wp_ofExcept {r : Except ε α} :
    wp (ofExcept r : EStateM ε σ α) Q s = Q r s := by
  cases r <;> rfl

@[simp] theorem wp_bind {f : α → EStateM ε σ β} {Q : Except ε β → σ → Prop} :
    wp (x >>= f) Q s = wp x (andThen f Q) s := by
  simp only [wp, bind, EStateM.bind]
  cases x s <;> rfl

@[simp] theorem wp_zoom {l : Lens σ τ} {x : EStateM ε τ α} :
    wp (zoom l x) Q s = wp x (fun r t => Q r (l.set s t)) (l.get s) := by
  simp only [wp, zoom]
  cases x (l.get s) <;> rfl

@[simp] theorem wp_attempt {δ : Type u} {p : ε → Option δ} {Q : Except ε (Except δ α) → σ → Prop} :
    wp (attempt p x) Q s = wp x (fun r t =>
      match r with
      | .ok a => Q (.ok (.ok a)) t
      | .error e =>
        match p e with
        | some d => Q (.ok (.error d)) t
        | none => Q (.error e) t) s := by
  simp only [wp, attempt]
  cases x s with
  | ok => rfl
  | error e t => simp only []; cases p e <;> rfl

theorem wp_mono (h : wp x Q s) (hQR : ∀ r t, Q r t → R r t) : wp x R s := by
  unfold wp at *
  cases hx : x s with
  | ok a t =>
    rw [hx] at h
    exact hQR _ _ h
  | error e t =>
    rw [hx] at h
    exact hQR _ _ h

end rules

def outcome (x : EStateM ε σ α) (s : σ) : Except ε α × σ :=
  match x s with
  | .ok a t => (.ok a, t)
  | .error e t => (.error e, t)

theorem wp_iff_outcome {x : EStateM ε σ α} {Q : Except ε α → σ → Prop} {s : σ} :
    wp x Q s ↔ Q (outcome x s).1 (outcome x s).2 := by
  unfold wp outcome
  cases x s <;> exact Iff.rfl

end WarpRust.Library
