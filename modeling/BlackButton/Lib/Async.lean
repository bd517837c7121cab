import Mathlib.Data.Vector.Defs
import Mathlib.Data.List.Basic

/-!
# Async functions over one stream

An `async fn` that reads with `read_exact` and writes with `write_all` is the tree of
what it does next. It is suspended while a read waits for bytes, so where it stands
between two polls is such a tree again (`feed`).

* `run_bind`, `run_tryBind`: a run of two functions in sequence is the two runs.
* `run_feed`: **bytes may arrive in any pieces**: what was fed early is what would have
  been read.
* `Reads`: a function that only reads, and passes the errors on; it stays one when it is fed.
-/

namespace BlackButton

/-- What arrives and is sent. -/
abbrev Bytes := List UInt8

/-- What an operation on a stream fails with; `other` is anything the system reports. -/
inductive IoError
  | unexpectedEof
  | writeZero
  | connectionRefused
  | connectionAborted
  | other
  deriving DecidableEq

/-- What an async function does next. -/
inductive Async (β α : Type) where
  | done (a : α)
  | readExact (n : ℕ) (k : Except IoError (List.Vector β n) → Async β α)
  | writeAll (bs : List β) (k : Except IoError Unit → Async β α)

namespace Async

variable {β α γ δ ε : Type}

/-- `.await`. -/
def bind : Async β α → (α → Async β γ) → Async β γ
  | done a, f => f a
  | readExact n k, f => readExact n fun r => bind (k r) f
  | writeAll bs k, f => writeAll bs fun r => bind (k r) f

instance : Monad (Async β) where
  pure := done
  bind := bind

/-- `.await?`. -/
def tryBind (x : Async β (Except ε α)) (f : α → Async β (Except ε γ)) : Async β (Except ε γ) :=
  bind x fun r =>
    match r with
    | .ok a => f a
    | .error e => done (.error e)

/-- `stream.read_exact(&mut buf).await`, with the error made one of the caller's. -/
def tryReadExact (err : IoError → ε) (n : ℕ) : Async β (Except ε (List.Vector β n)) :=
  readExact n fun r =>
    match r with
    | .ok bs => done (.ok bs)
    | .error e => done (.error (err e))

/-- What a run ends with: the result, the bytes it left and the bytes it wrote. -/
structure Ran (β α : Type) where
  result : α
  rest : List β
  written : List β

/-- The run on a stream that holds `bs` and then ends. -/
def run : Async β α → List β → Ran β α
  | done a, bs => ⟨a, bs, []⟩
  | readExact n k, bs =>
    if h : n ≤ bs.length then run (k (.ok ⟨bs.take n, List.length_take_of_le h⟩)) (bs.drop n)
    else run (k (.error .unexpectedEof)) []
  | writeAll out k, bs =>
    let r := run (k (.ok ())) bs
    ⟨r.result, r.rest, out ++ r.written⟩

/-- How many bytes the next poll of the stream may give at most. -/
def want : Async β α → ℕ
  | readExact n _ => n
  | _ => 0

/-- `bs` has arrived, at most as much as is wanted. -/
def feed : Async β α → List β → Async β α
  | readExact n k, bs =>
    if h : bs.length < n then
      readExact (n - bs.length) fun r =>
        k (r.map fun more => ⟨bs ++ more.val, by rw [List.length_append, more.property]; omega⟩)
    else k (.ok ⟨bs.take n, List.length_take_of_le (by omega)⟩)
  | p, _ => p

/-- The stream has failed or has ended. -/
def fail : Async β α → IoError → Async β α
  | readExact _ k, e => k (.error e)
  | p, _ => p

@[simp] theorem run_done (a : α) (bs : List β) : run (done a) bs = ⟨a, bs, []⟩ := rfl

theorem run_bind (x : Async β α) (f : α → Async β γ) (bs : List β) :
    run (bind x f) bs =
      ⟨(run (f (run x bs).result) (run x bs).rest).result, (run (f (run x bs).result) (run x bs).rest).rest,
        (run x bs).written ++ (run (f (run x bs).result) (run x bs).rest).written⟩ := by
  induction x generalizing bs with
  | done a => rfl
  | readExact n k ih =>
    simp only [bind, run]
    split
    · exact ih _ _
    · exact ih _ _
  | writeAll out k ih =>
    simp only [bind, run]
    rw [ih, List.append_assoc]

/-- **A run of two functions in sequence**, where the first one succeeds. -/
theorem run_tryBind_ok {x : Async β (Except ε α)} {f : α → Async β (Except ε γ)} {bs rest out : List β} {a : α}
    (h : run x bs = ⟨.ok a, rest, out⟩) :
    run (tryBind x f) bs = ⟨(run (f a) rest).result, (run (f a) rest).rest, out ++ (run (f a) rest).written⟩ := by
  unfold tryBind
  rw [run_bind, h]

theorem run_tryBind_error {x : Async β (Except ε α)} {f : α → Async β (Except ε γ)} {bs rest out : List β} {e : ε}
    (h : run x bs = ⟨.error e, rest, out⟩) : run (tryBind x f) bs = ⟨.error e, rest, out⟩ := by
  unfold tryBind
  rw [run_bind, h]
  simp

theorem run_tryReadExact (err : IoError → ε) (n : ℕ) (bs : List β) :
    run (tryReadExact err n) bs =
      if h : n ≤ bs.length then ⟨.ok ⟨bs.take n, List.length_take_of_le h⟩, bs.drop n, []⟩
      else ⟨.error (err .unexpectedEof), [], []⟩ := by
  unfold tryReadExact run
  split <;> rfl

/-- The read takes what stands first. -/
theorem run_tryReadExact_append (err : IoError → ε) {n : ℕ} (xs : List.Vector β n) (bs : List β) :
    run (tryReadExact err n) (xs.val ++ bs) = ⟨.ok xs, bs, []⟩ := by
  obtain ⟨xs, rfl⟩ := xs
  have hle : xs.length ≤ (xs ++ bs).length := by rw [List.length_append]; omega
  rw [run_tryReadExact, dif_pos hle]
  simp only [List.take_left, List.drop_left]

/-- **A read in front of a function**: it takes as much as it asks for. -/
theorem run_read_append (err : IoError → ε) {n : ℕ} (xs : List.Vector β n) (f : List.Vector β n → Async β (Except ε γ))
    (bs : List β) : run (tryBind (tryReadExact err n) f) (xs.val ++ bs) = run (f xs) bs := by
  rw [run_tryBind_ok (run_tryReadExact_append err xs bs)]
  rfl

theorem run_read_short (err : IoError → ε) {n : ℕ} {bs : List β} (h : bs.length < n)
    (f : List.Vector β n → Async β (Except ε γ)) :
    run (tryBind (tryReadExact err n) f) bs = ⟨.error (err .unexpectedEof), [], []⟩ := by
  apply run_tryBind_error
  rw [run_tryReadExact, dif_neg (by omega)]

/-- What a function read that has succeeded. -/
theorem run_read_ok_iff (err : IoError → ε) {n : ℕ} {f : List.Vector β n → Async β (Except ε γ)} {bs rest out : List β}
    {a : γ} : run (tryBind (tryReadExact err n) f) bs = ⟨.ok a, rest, out⟩ ↔
      ∃ (xs : List.Vector β n) (tail : List β), bs = xs.val ++ tail ∧ run (f xs) tail = ⟨.ok a, rest, out⟩ := by
  constructor
  · intro h
    by_cases hn : bs.length < n
    · rw [run_read_short err hn] at h
      cases h
    · have hlen : (bs.take n).length = n := List.length_take_of_le (by omega)
      have happ := run_read_append err ⟨bs.take n, hlen⟩ f (bs.drop n)
      simp only [List.take_append_drop] at happ
      exact ⟨⟨bs.take n, hlen⟩, bs.drop n, (List.take_append_drop n bs).symm, happ.symm.trans h⟩
  · rintro ⟨xs, tail, rfl, h⟩
    rwa [run_read_append]

/-- **Bytes may arrive in any pieces.** -/
theorem run_feed {p : Async β α} {bs : List β} (h : bs.length ≤ p.want) (more : List β) :
    run (feed p bs) more = run p (bs ++ more) := by
  cases p with
  | done a =>
    have hnil : bs = [] := List.eq_nil_of_length_eq_zero (Nat.le_zero.1 h)
    rw [hnil]
    rfl
  | writeAll out k =>
    have hnil : bs = [] := List.eq_nil_of_length_eq_zero (Nat.le_zero.1 h)
    rw [hnil]
    rfl
  | readExact n k =>
    have hle : bs.length ≤ n := h
    simp only [feed]
    by_cases hlt : bs.length < n
    · rw [dif_pos hlt]
      simp only [run, List.length_append]
      have htake : (bs ++ more).take n = bs ++ more.take (n - bs.length) := by
        rw [List.take_append, List.take_of_length_le hle]
      have hdrop : (bs ++ more).drop n = more.drop (n - bs.length) := by
        rw [List.drop_append, List.drop_eq_nil_of_le hle, List.nil_append]
      by_cases hn : n - bs.length ≤ more.length
      · rw [dif_pos hn, dif_pos (by omega)]
        simp only [htake, hdrop]
        rfl
      · rw [dif_neg hn, dif_neg (by omega)]
        rfl
    · have heq : n = bs.length := by omega
      subst heq
      rw [dif_neg hlt]
      simp only [run, List.length_append, List.take_left, List.drop_left, List.take_length]
      rw [dif_pos (by omega)]

/-- The function only reads, something each time, and an error of a read is what it ends with. -/
inductive Reads (err : IoError → ε) : Async β (Except ε α) → Prop
  | done (r : Except ε α) : Reads err (done r)
  | readExact {n : ℕ} {k : Except IoError (List.Vector β n) → Async β (Except ε α)} (hn : 0 < n)
      (hok : ∀ bs, Reads err (k (.ok bs))) (herr : ∀ e, k (.error e) = Async.done (.error (err e))) :
      Reads err (readExact n k)

variable {err : IoError → ε}

theorem reads_tryBind {n : ℕ} {f : List.Vector β n → Async β (Except ε γ)} (hn : 0 < n)
    (hf : ∀ bs, Reads err (f bs)) : Reads err (tryBind (tryReadExact err n) f) :=
  .readExact hn hf fun _ => rfl

theorem Reads.feed {p : Async β (Except ε α)} (h : Reads err p) (bs : List β) : Reads err (p.feed bs) := by
  cases h with
  | done r => exact .done r
  | @readExact n k hn hok herr =>
    simp only [Async.feed]
    by_cases hlt : bs.length < n
    · rw [dif_pos hlt]
      apply Reads.readExact
      · omega
      · exact fun more => hok _
      · exact herr
    · rw [dif_neg hlt]
      exact hok _

/-- All that the function can end with, whatever it reads. -/
inductive Yields (P : α → Prop) : Async β α → Prop
  | done {a : α} (h : P a) : Yields P (done a)
  | readExact {n : ℕ} {k : Except IoError (List.Vector β n) → Async β α} (h : ∀ r, Yields P (k r)) :
      Yields P (readExact n k)
  | writeAll {bs : List β} {k : Except IoError Unit → Async β α} (h : ∀ r, Yields P (k r)) : Yields P (writeAll bs k)

theorem Yields.run {P : α → Prop} {p : Async β α} (h : Yields P p) (bs : List β) : P (run p bs).result := by
  induction h generalizing bs with
  | done h => exact h
  | readExact _ ih =>
    unfold Async.run
    split
    · exact ih _ _
    · exact ih _ _
  | writeAll _ ih => exact ih _ _

/-- Its errors have `P`. -/
def Fails (P : ε → Prop) (r : Except ε α) : Prop := ∀ e, r = .error e → P e

theorem yields_tryBind {P : ε → Prop} {x : Async β (Except ε α)} {f : α → Async β (Except ε γ)}
    (hx : Yields (Fails P) x) (hf : ∀ a, Yields (Fails P) (f a)) : Yields (Fails P) (tryBind x f) := by
  induction hx with
  | @done a h =>
    cases a with
    | ok a => exact hf a
    | error e => exact .done fun e' he => by cases he; exact h e rfl
  | readExact _ ih => exact .readExact ih
  | writeAll _ ih => exact .writeAll ih

theorem yields_tryReadExact {P : ε → Prop} {err : IoError → ε} (h : ∀ e, P (err e)) (n : ℕ) :
    Yields (Fails P) (tryReadExact err n : Async β (Except ε (List.Vector β n))) := by
  refine .readExact fun r => ?_
  cases r with
  | ok bs => exact .done nofun
  | error e => exact .done fun e' he => by cases he; exact h e

/-- The function writes nothing. -/
inductive Silent : Async β α → Prop
  | done (a : α) : Silent (done a)
  | readExact {n : ℕ} {k : Except IoError (List.Vector β n) → Async β α} (h : ∀ r, Silent (k r)) :
      Silent (readExact n k)

theorem Silent.written {p : Async β α} (h : Silent p) (bs : List β) : (Async.run p bs).written = [] := by
  induction h generalizing bs with
  | done a => rfl
  | readExact _ ih =>
    unfold Async.run
    split
    · exact ih _ _
    · exact ih _ _

theorem silent_tryBind {x : Async β (Except ε α)} {f : α → Async β (Except ε γ)} (hx : Silent x)
    (hf : ∀ a, Silent (f a)) : Silent (tryBind x f) := by
  induction hx with
  | done r =>
    cases r with
    | ok a => exact hf a
    | error e => exact .done _
  | readExact _ ih => exact .readExact ih

theorem silent_tryReadExact (err : IoError → ε) (n : ℕ) : Silent (tryReadExact err n : Async β _) := by
  refine .readExact fun r => ?_
  cases r <;> exact .done _

theorem Reads.silent {p : Async β (Except ε α)} (h : Reads err p) : Silent p := by
  induction h with
  | done r => exact .done r
  | readExact _ _ herr ih =>
    refine .readExact fun r => ?_
    cases r with
    | ok bs => exact ih bs
    | error e =>
      rw [herr]
      exact .done _

/-- Where such a function stands: at a read, or at its end. -/
theorem Reads.cases_want {p : Async β (Except ε α)} (h : Reads err p) :
    (∃ r, p = Async.done r) ∨ (0 < p.want ∧ ∀ e, p.fail e = Async.done (.error (err e))) := by
  cases h with
  | done r => exact Or.inl ⟨r, rfl⟩
  | readExact hn _ herr => exact Or.inr ⟨hn, herr⟩

end Async

end BlackButton
