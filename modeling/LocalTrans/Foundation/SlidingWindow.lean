import Mathlib.Data.List.Induction

/-!
# Sliding windows

`recent window now times` are the times less than `window` before `now`; as time goes on, times
that are not recent stay so (`recent_filter`). `limiter` judges requests in turn: a request is
granted when fewer than `limit` of those granted before are recent. No interval as long as the
window has more than `limit` granted requests (`interval_bounded`).
-/

namespace Foundation.SlidingWindow

variable {window limit now later : Nat} {times : List Nat}

/-- The times less than `window` before `now`. -/
def recent (window now : Nat) (times : List Nat) : List Nat :=
  times.filter fun t => now - t < window

theorem recent_append (first second : List Nat) :
    recent window now (first ++ second) = recent window now first ++ recent window now second :=
  List.filter_append ..

/-- Where no time is recent, none is listed. -/
theorem recent_eq_nil (h : ∀ t ∈ times, t + window ≤ now) : recent window now times = [] := by
  refine List.filter_eq_nil_iff.mpr fun t hmem => ?_
  have hold := h t hmem
  simp only [decide_eq_true_eq]
  omega

/-- Leaving out times that are not recent now changes nothing later on. -/
theorem recent_filter {keep : Nat → Bool} (hle : now ≤ later)
    (hkeep : ∀ t ∈ times, now - t < window → keep t = true) :
    recent window later (times.filter keep) = recent window later times := by
  unfold recent
  rw [List.filter_filter]
  refine List.filter_congr fun t hmem => ?_
  have hkept := hkeep t hmem
  by_cases hrecent : later - t < window
  · simp [hrecent, hkept (by omega)]
  · simp [hrecent]

/-- The times of the granted requests. -/
def granted (verdicts : List (Nat × Bool)) : List Nat :=
  (verdicts.filter Prod.snd).map Prod.fst

theorem granted_append (first second : List (Nat × Bool)) :
    granted (first ++ second) = granted first ++ granted second := by
  simp [granted]

@[simp] theorem granted_singleton (now : Nat) (ok : Bool) :
    granted [(now, ok)] = if ok then [now] else [] := by
  cases ok <;> rfl

/-- Judge a request: it is granted when fewer than `limit` of those granted before are recent. -/
def judge (window limit : Nat) (verdicts : List (Nat × Bool)) (now : Nat) : List (Nat × Bool) :=
  verdicts ++ [(now, decide ((recent window now (granted verdicts)).length < limit))]

/-- The verdicts on requests at the given times. -/
def limiter (window limit : Nat) (times : List Nat) : List (Nat × Bool) :=
  times.foldl (judge window limit) []

theorem limiter_append_singleton :
    limiter window limit (times ++ [now]) =
      judge window limit (limiter window limit times) now := by
  simp [limiter]

/-- An interval as long as the window has at most `limit` granted requests. -/
theorem interval_bounded (window limit : Nat) (times : List Nat) (start : Nat) :
    ((granted (limiter window limit times)).filter
      fun t => start ≤ t && t < start + window).length ≤ limit := by
  induction times using List.reverseRecOn with
  | nil => exact Nat.zero_le limit
  | append_singleton times now ih =>
    rw [limiter_append_singleton, judge, granted_append, List.filter_append, List.length_append,
      granted_singleton]
    by_cases hroom : (recent window now (granted (limiter window limit times))).length < limit
    · rw [if_pos (decide_eq_true hroom)]
      by_cases hinside : start ≤ now ∧ now < start + window
      · -- what the interval has so far is recent when the request is judged
        have hrecent : ((granted (limiter window limit times)).filter
            fun t => start ≤ t && t < start + window).length ≤
              (recent window now (granted (limiter window limit times))).length := by
          rw [recent, ← List.countP_eq_length_filter, ← List.countP_eq_length_filter]
          refine List.countP_mono_left fun t _ ht => ?_
          simp only [Bool.and_eq_true, decide_eq_true_eq] at ht ⊢
          omega
        have hone := List.length_filter_le (fun t => start ≤ t && t < start + window) [now]
        rw [List.length_singleton] at hone
        omega
      · rw [List.filter_cons_of_neg (by simpa using hinside)]
        exact ih
    · rw [if_neg (by simpa using hroom)]
      exact ih

end Foundation.SlidingWindow
