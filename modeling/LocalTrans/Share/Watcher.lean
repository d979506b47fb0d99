import LocalTrans.Foundation.Execution
import LocalTrans.Foundation.History
import LocalTrans.Foundation.ReverseIndex

/-!
# The watcher of shared directories

`spawn_share_watcher` of `share_watch.rs`: it reads the fingerprints of the shared directories again
and again, tells of those that changed, forgets the shares that are gone, and waits longer while
nothing changes. A step is one round; its input is the list of the shares with the fingerprints that
are read, and whether they could be read. `watches_soundly` says of which changes the watcher tells,
and which periods it sets.
-/

namespace LocalTrans.Share

open Foundation

/-- One round: the shares that are registered, each with the fingerprint of its directory, and
whether the task that reads them returns. -/
structure Scan where
  defs : List (String × BitVec 64)
  read : Bool
deriving DecidableEq

namespace Scan

/-- The shares that are registered. -/
def ids (scan : Scan) : List String := scan.defs.map Prod.fst

/-- What the task returns, nothing if it fails. -/
def fps (scan : Scan) : List (String × BitVec 64) := if scan.read then scan.defs else []

/-- The fingerprint that is found for a share. -/
def fingerprint (scan : Scan) (id : String) : Option (BitVec 64) :=
  (scan.fps.find? fun entry => entry.1 = id).map Prod.snd

/-- The share is not registered, the shares that are have different ids, and they could be read. -/
def Drops (scan : Scan) (id : String) : Prop :=
  id ∉ scan.ids ∧ scan.ids.Nodup ∧ scan.read = true
deriving Decidable

/-- The comparison of the shares, one after the other, with what is remembered; a share is told of
if it is remembered with another fingerprint. -/
def compare (scan : Scan) :
    List String → Map String (BitVec 64) → Map String (BitVec 64) × List String
  | [], last => (last, [])
  | id :: rest, last =>
    match scan.fingerprint id with
    | none => compare scan rest last
    | some fp =>
      let result := compare scan rest (last.insert id fp)
      match last.lookup id with
      | some prev => if prev = fp then result else (result.1, id :: result.2)
      | none => result

/-- Shares that are gone are forgotten if more are remembered than registered. -/
def forget (scan : Scan) (last : Map String (BitVec 64)) : Map String (BitVec 64) :=
  if scan.defs.length < last.entries.length then last.retain fun id _ => id ∈ scan.ids else last

end Scan

/-- `Duration::MAX`, in nanoseconds. -/
def durationMax : Nat := (2 ^ 64 - 1) * 10 ^ 9 + 999999999

/-- A multiple of a duration, none if it is too long. -/
def scaled (base mult : Nat) : Option Nat :=
  if base * mult ≤ durationMax then some (base * mult) else none

/-- `MAX_BACKOFF_MULT`. -/
def maxBackoffMult : Nat := 15

/-- What the watcher remembers; how many rounds there was no change; the period of its interval, in
nanoseconds, and whether the interval is new, so that it ticks at once. -/
structure Watcher where
  last : Map String (BitVec 64)
  idleRounds : Nat
  period : Nat
  fresh : Bool

/-- A round: how long the interval made it wait, what was read, of what it told, and the period
after it. -/
structure Round where
  waited : Nat
  scan : Scan
  told : List String
  period : Nat
deriving DecidableEq

namespace Watcher

/-- The watcher when it has begun. -/
def new (base : Nat) : Watcher := { last := ∅, idleRounds := 0, period := base, fresh := false }

/-- A period is set; the interval is a new one if it differs. -/
def setPeriod (w : Watcher) (period : Nat) : Watcher :=
  if period ≠ w.period then { w with period, fresh := true } else w

/-- The period is the base after a change, and longer the longer there was none. -/
def backOff (base : Nat) (changed : Bool) (w : Watcher) : Option Watcher :=
  if changed then some (setPeriod { w with idleRounds := 0 } base)
  else do
    let idleRounds := min (w.idleRounds + 1) (2 ^ 32 - 1)
    let raised ← scaled base (2 ^ min idleRounds 4)
    let limit ← scaled base maxBackoffMult
    some (setPeriod { w with idleRounds } (min raised limit))

/-- One round. -/
def step (base : Nat) : Machine Watcher Scan Round :=
  fun w scan =>
    let result := scan.compare scan.ids w.last
    (backOff base (result.2 ≠ []) { w with last := scan.forget result.1, fresh := false }).map
      fun next =>
        (next, [⟨if w.fresh then 0 else w.period, scan, result.2, next.period⟩])

end Watcher

/-- The round finds a fingerprint for the share. -/
def Round.Sees (id : String) (round : Round) : Prop := round.scan.fingerprint id ≠ none

/-- The rounds since the last one that found a fingerprint for the share, and the fingerprint. -/
def LastSeen (rounds : List Round) (id : String) (prev : BitVec 64) (since : List Round) : Prop :=
  ∃ round, Standing (Round.Sees id) rounds round since ∧ round.scan.fingerprint id = some prev

/-- What a round tells, after some rounds: only of shares whose fingerprint differs from the one that
was found last, of each once; of all of them that were registered all the time since; and of none
that was dropped since. The period keeps to its bounds, and is the base after a change. -/
structure TellsRightly (base : Nat) (before : List Round) (round : Round) : Prop where
  once : round.told.Nodup
  only : ∀ id ∈ round.told, ∃ fp prev since, round.scan.fingerprint id = some fp ∧
    LastSeen before id prev since ∧ prev ≠ fp
  all : ∀ id fp prev since, round.scan.fingerprint id = some fp → LastSeen before id prev since →
    prev ≠ fp → (∀ between ∈ since, id ∈ between.scan.ids) → id ∈ round.told
  dropped : ∀ id prev since, LastSeen before id prev since →
    (∃ between ∈ since, between.scan.Drops id) → id ∉ round.told
  period : base ≤ round.period ∧ round.period ≤ base * maxBackoffMult
  restored : round.told ≠ [] → round.period = base

namespace Scan

variable {scan : Scan} {id : String} {fp prev : BitVec 64} {last : Map String (BitVec 64)}
  {ids : List String}

/-- A share with a fingerprint is registered. -/
theorem mem_ids_of_fingerprint (h : scan.fingerprint id = some fp) : id ∈ scan.ids := by
  obtain ⟨⟨id', fp'⟩, hfind, -⟩ := Option.map_eq_some_iff.mp h
  have hmem : (id', fp') ∈ scan.defs := by
    have hfound := List.mem_of_find?_eq_some hfind
    unfold fps at hfound
    split at hfound
    · exact hfound
    · cases hfound
  obtain rfl : id' = id := by simpa using List.find?_some hfind
  exact List.mem_map_of_mem hmem

/-- If the shares could be read, there is a fingerprint for each. -/
theorem fingerprint_of_mem (hread : scan.read = true) (h : id ∈ scan.ids) :
    ∃ fp, scan.fingerprint id = some fp := by
  obtain ⟨⟨id', fp⟩, hmem, rfl⟩ := List.mem_map.mp h
  unfold fingerprint fps
  rw [if_pos hread]
  cases hfind : scan.defs.find? fun entry => entry.1 = id' with
  | some entry => exact ⟨entry.2, rfl⟩
  | none =>
    have hnot := List.find?_eq_none.mp hfind _ hmem
    simp at hnot

/-- The comparison of the first share, if there is a fingerprint for it. -/
theorem compare_cons {first : String} {rest : List String}
    (h : scan.fingerprint first = some fp) :
    scan.compare (first :: rest) last =
      ((scan.compare rest (last.insert first fp)).1,
        if ∃ prev, last.lookup first = some prev ∧ prev ≠ fp then
          first :: (scan.compare rest (last.insert first fp)).2
        else (scan.compare rest (last.insert first fp)).2) := by
  rw [compare, h]
  cases hlast : last.lookup first with
  | none => simp
  | some prev =>
    by_cases hsame : prev = fp
    · simp [hsame]
    · simp [hsame]

/-- What is remembered after the comparison. -/
theorem lookup_compare :
    (scan.compare ids last).1.lookup id =
      if id ∈ ids then (scan.fingerprint id).or (last.lookup id) else last.lookup id := by
  induction ids generalizing last with
  | nil => rfl
  | cons first rest ih =>
    cases hfirst : scan.fingerprint first with
    | none =>
      rw [compare, hfirst, ih]
      by_cases heq : id = first
      · rw [heq, hfirst]
        simp
      · simp [heq]
    | some fp =>
      rw [compare_cons hfirst, ih]
      by_cases heq : id = first
      · rw [heq, hfirst, AList.lookup_insert]
        simp
      · rw [AList.lookup_insert_ne heq]
        simp [heq]

/-- The shares of which the comparison tells. -/
theorem mem_compare :
    id ∈ (scan.compare ids last).2 ↔ id ∈ ids ∧ ∃ fp prev, scan.fingerprint id = some fp ∧
      last.lookup id = some prev ∧ prev ≠ fp := by
  induction ids generalizing last with
  | nil => simp [compare]
  | cons first rest ih =>
    cases hfirst : scan.fingerprint first with
    | none =>
      rw [compare, hfirst, ih]
      by_cases heq : id = first
      · rw [heq, hfirst]
        simp
      · simp [heq]
    | some fp =>
      rw [compare_cons hfirst]
      by_cases heq : id = first
      · subst heq
        -- When the share comes again, its new fingerprint is remembered already.
        have hagain : id ∉ (scan.compare rest (last.insert id fp)).2 := by
          rw [ih, hfirst, AList.lookup_insert]
          simp
        split
        · next hchanged => simpa [hfirst] using hchanged
        · next hsame => simpa [hfirst, hagain] using hsame
      · have hrest : id ∈ (scan.compare rest (last.insert first fp)).2 ↔ id ∈ rest ∧
            ∃ fp prev, scan.fingerprint id = some fp ∧ last.lookup id = some prev ∧ prev ≠ fp := by
          rw [ih, AList.lookup_insert_ne heq]
        split
        · simp [heq, hrest]
        · simp [heq, hrest]

/-- The comparison tells of no share twice. -/
theorem nodup_compare : (scan.compare ids last).2.Nodup := by
  induction ids generalizing last with
  | nil => exact List.nodup_nil
  | cons first rest ih =>
    cases hfirst : scan.fingerprint first with
    | none =>
      rw [compare, hfirst]
      exact ih
    | some fp =>
      rw [compare_cons hfirst]
      have hagain : first ∉ (scan.compare rest (last.insert first fp)).2 := by
        rw [mem_compare, hfirst, AList.lookup_insert]
        simp
      split
      · exact List.nodup_cons.mpr ⟨hagain, ih⟩
      · exact ih

/-- What is remembered after a round of a share that is registered: the fingerprint that was found,
or else what was remembered before. -/
theorem lookup_of_registered (h : id ∈ scan.ids) :
    (scan.forget (scan.compare scan.ids last).1).lookup id =
      (scan.fingerprint id).or (last.lookup id) := by
  have hlookup : (scan.compare scan.ids last).1.lookup id =
      (scan.fingerprint id).or (last.lookup id) := by rw [lookup_compare, if_pos h]
  rw [← hlookup]
  unfold forget
  split
  · refine Option.ext fun fp => ?_
    rw [lookup_retain_iff]
    simp [h]
  · rfl

/-- What is remembered after a round of a share that is gone was remembered before. -/
theorem lookup_of_gone (h : id ∉ scan.ids)
    (hlookup : (scan.forget (scan.compare scan.ids last).1).lookup id = some prev) :
    last.lookup id = some prev := by
  unfold forget at hlookup
  split at hlookup
  · rw [lookup_retain_iff] at hlookup
    exact absurd (of_decide_eq_true hlookup.2) h
  · rwa [lookup_compare, if_neg h] at hlookup

/-- A share that is dropped is forgotten: what is remembered is more than what is registered. -/
theorem forgotten_of_drops (h : scan.Drops id) :
    (scan.forget (scan.compare scan.ids last).1).lookup id = none := by
  obtain ⟨hgone, hdistinct, hread⟩ := h
  cases hlookup : (scan.forget (scan.compare scan.ids last).1).lookup id with
  | none => rfl
  | some prev =>
    have hlast := lookup_of_gone hgone hlookup
    have hall : id :: scan.ids ⊆ (scan.compare scan.ids last).1.entries.keys := by
      intro id' hmem
      have hremembered : ∃ fp, (scan.compare scan.ids last).1.lookup id' = some fp := by
        rw [lookup_compare]
        rcases List.mem_cons.mp hmem with rfl | hid
        · exact ⟨prev, by rw [if_neg hgone, hlast]⟩
        · obtain ⟨fp, hfp⟩ := fingerprint_of_mem hread hid
          exact ⟨fp, by rw [if_pos hid, hfp]; rfl⟩
      obtain ⟨fp, hfp⟩ := hremembered
      exact List.mem_keys_of_mem (mem_entries_iff.mpr hfp)
    have hmore := (List.subperm_of_subset (List.nodup_cons.mpr ⟨hgone, hdistinct⟩) hall).length_le
    have hless : scan.defs.length < (scan.compare scan.ids last).1.entries.length := by
      rw [List.length_cons, ids, List.keys, List.length_map, List.length_map] at hmore
      exact hmore
    rw [forget, if_pos hless, lookup_retain_iff] at hlookup
    exact absurd (of_decide_eq_true hlookup.2) hgone

end Scan

namespace Watcher

variable {base : Nat} {rounds : List Round} {round : Round} {w next : Watcher} {scan : Scan}
  {emitted : List Round} {changed : Bool}

/-- The period that is set. -/
@[simp] theorem set_period_period (w : Watcher) (period : Nat) :
    (w.setPeriod period).period = period := by
  unfold setPeriod
  split
  · rfl
  · next hsame => exact (not_not.mp hsame).symm

@[simp] theorem set_period_last (w : Watcher) (period : Nat) : (w.setPeriod period).last = w.last := by
  unfold setPeriod
  split
  · rfl
  · rfl

/-- The period keeps to its bounds, and is the base after a change; nothing else is remembered. -/
theorem back_off_spec (h : backOff base changed w = some next) :
    next.last = w.last ∧ (base ≤ next.period ∧ next.period ≤ base * maxBackoffMult) ∧
      (changed = true → next.period = base) := by
  have hmult : base ≤ base * maxBackoffMult := Nat.le_mul_of_pos_right base (by decide)
  unfold backOff at h
  split at h
  · next hchanged =>
    obtain rfl := Option.some.inj h
    simp [hmult]
  · next hidle =>
    simp only [Option.bind_eq_bind, Option.bind_eq_some_iff] at h
    obtain ⟨raised, hraised, limit, hlimit, h⟩ := h
    obtain rfl := Option.some.inj h
    simp only [scaled, Option.ite_none_right_eq_some] at hraised hlimit
    obtain ⟨-, hraised⟩ := hraised
    obtain ⟨-, hlimit⟩ := hlimit
    have hpow : base ≤ raised := by
      rw [← Option.some.inj hraised]
      exact Nat.le_mul_of_pos_right base (Nat.two_pow_pos _)
    have hlimit : base * maxBackoffMult = limit := Option.some.inj hlimit
    simp only [set_period_last, set_period_period]
    refine ⟨trivial, ⟨Nat.le_min.mpr ⟨hpow, hlimit ▸ hmult⟩, ?_⟩, fun hchanged => ?_⟩
    · exact hlimit ▸ Nat.min_le_right _ _
    · exact absurd hchanged hidle

/-- What one round does. -/
theorem step_cases (h : step base w scan = some (next, emitted)) :
    ∃ round, emitted = [round] ∧ round.scan = scan ∧
      round.told = (scan.compare scan.ids w.last).2 ∧
      next.last = scan.forget (scan.compare scan.ids w.last).1 ∧
      (base ≤ round.period ∧ round.period ≤ base * maxBackoffMult) ∧
      (round.told ≠ [] → round.period = base) := by
  obtain ⟨after, hback, heq⟩ := Option.map_eq_some_iff.mp h
  obtain ⟨rfl, rfl⟩ := Prod.mk.inj heq
  obtain ⟨hlast, hbounds, hrestored⟩ := back_off_spec hback
  exact ⟨_, rfl, rfl, rfl, hlast, hbounds, fun htold => hrestored (decide_eq_true htold)⟩

/-- What the watcher remembers, after some rounds: a fingerprint that is remembered was found last;
one that was found last is remembered if the share was registered all the time since; and a share that
was dropped since is not remembered. -/
structure Remembers (rounds : List Round) (w : Watcher) : Prop where
  seen : ∀ id prev, w.last.lookup id = some prev → ∃ since, LastSeen rounds id prev since
  kept : ∀ id prev since, LastSeen rounds id prev since →
    (∀ between ∈ since, id ∈ between.scan.ids) → w.last.lookup id = some prev
  dropped : ∀ id prev since, LastSeen rounds id prev since →
    (∃ between ∈ since, between.scan.Drops id) → w.last.lookup id = none

/-- A round finds the fingerprint, or the one that was found last stays the last. -/
theorem last_seen_snoc {id : String} {prev : BitVec 64} {since : List Round} :
    LastSeen (rounds ++ [round]) id prev since ↔
      round.scan.fingerprint id = some prev ∧ since = [] ∨
        round.scan.fingerprint id = none ∧ ∃ before, since = before ++ [round] ∧
          LastSeen rounds id prev before := by
  constructor
  · rintro ⟨found, hstanding, hprev⟩
    rcases hstanding.of_snoc with ⟨rfl, rfl⟩ | ⟨before, rfl, hbefore, hnot⟩
    · exact .inl ⟨hprev, rfl⟩
    · exact .inr ⟨not_not.mp hnot, before, rfl, found, hbefore, hprev⟩
  · rintro (⟨hprev, rfl⟩ | ⟨hnone, before, rfl, found, hstanding, hprev⟩)
    · exact ⟨round, standing_new fun after hmem => absurd hmem List.not_mem_nil, hprev⟩
    · refine ⟨found, hstanding.append fun after hmem => ?_, hprev⟩
      rw [List.mem_singleton.mp hmem]
      exact not_not.mpr hnone

/-- A round keeps what is remembered in order. -/
theorem Remembers.step (h : Remembers rounds w)
    (hlast : next.last = round.scan.forget (round.scan.compare round.scan.ids w.last).1) :
    Remembers (rounds ++ [round]) next := by
  constructor
  · intro id prev hlookup
    rw [hlast] at hlookup
    by_cases hid : id ∈ round.scan.ids
    · rw [Scan.lookup_of_registered hid] at hlookup
      cases hfp : round.scan.fingerprint id with
      | some fp =>
        rw [hfp] at hlookup
        exact ⟨[], last_seen_snoc.mpr (.inl ⟨hfp.trans hlookup, rfl⟩)⟩
      | none =>
        rw [hfp] at hlookup
        obtain ⟨since, hseen⟩ := h.seen id prev hlookup
        exact ⟨_, last_seen_snoc.mpr (.inr ⟨hfp, since, rfl, hseen⟩)⟩
    · have hnone : round.scan.fingerprint id = none := by
        by_contra hfound
        obtain ⟨fp, hfp⟩ := Option.ne_none_iff_exists'.mp hfound
        exact hid (Scan.mem_ids_of_fingerprint hfp)
      obtain ⟨since, hseen⟩ := h.seen id prev (Scan.lookup_of_gone hid hlookup)
      exact ⟨_, last_seen_snoc.mpr (.inr ⟨hnone, since, rfl, hseen⟩)⟩
  · intro id prev since hseen hregistered
    rw [hlast]
    rcases last_seen_snoc.mp hseen with ⟨hfp, rfl⟩ | ⟨hnone, before, rfl, hbefore⟩
    · rw [Scan.lookup_of_registered (Scan.mem_ids_of_fingerprint hfp), hfp]
      rfl
    · rw [Scan.lookup_of_registered (hregistered round (by simp)), hnone]
      exact h.kept id prev before hbefore fun between hmem => hregistered between (by simp [hmem])
  · intro id prev since hseen hdropped
    rw [hlast]
    rcases last_seen_snoc.mp hseen with ⟨-, rfl⟩ | ⟨hnone, before, rfl, hbefore⟩
    · obtain ⟨between, hmem, -⟩ := hdropped
      cases hmem
    · obtain ⟨between, hmem, hdrops⟩ := hdropped
      rcases List.mem_append.mp hmem with hold | hnew
      · have hgone := h.dropped id prev before hbefore ⟨between, hold, hdrops⟩
        by_cases hid : id ∈ round.scan.ids
        · rw [Scan.lookup_of_registered hid, hnone, hgone]
          rfl
        · by_contra hfound
          obtain ⟨fp, hfp⟩ := Option.ne_none_iff_exists'.mp hfound
          rw [Scan.lookup_of_gone hid hfp] at hgone
          cases hgone
      · obtain rfl := List.mem_singleton.mp hnew
        exact Scan.forgotten_of_drops hdrops

/-- What is remembered says of which shares a round tells. -/
theorem Remembers.tells (h : Remembers rounds w)
    (htold : round.told = (round.scan.compare round.scan.ids w.last).2)
    (hbounds : base ≤ round.period ∧ round.period ≤ base * maxBackoffMult)
    (hrestored : round.told ≠ [] → round.period = base) : TellsRightly base rounds round where
  once := by
    rw [htold]
    exact Scan.nodup_compare
  only := by
    intro id hmem
    rw [htold, Scan.mem_compare] at hmem
    obtain ⟨-, fp, prev, hfp, hprev, hne⟩ := hmem
    obtain ⟨since, hseen⟩ := h.seen id prev hprev
    exact ⟨fp, prev, since, hfp, hseen, hne⟩
  all := by
    intro id fp prev since hfp hseen hne hregistered
    rw [htold, Scan.mem_compare]
    exact ⟨Scan.mem_ids_of_fingerprint hfp, fp, prev, hfp, h.kept id prev since hseen hregistered, hne⟩
  dropped := by
    intro id prev since hseen hdropped hmem
    rw [htold, Scan.mem_compare] at hmem
    obtain ⟨-, fp, other, -, hother, -⟩ := hmem
    rw [h.dropped id prev since hseen hdropped] at hother
    cases hother
  period := hbounds
  restored := hrestored

end Watcher

/-- Whatever shares come, go and change: a round tells only of shares whose fingerprint differs from
the one that was found last, and of all of these that were registered all the time since; a share that
was dropped since is forgotten; and the period keeps to its bounds, and is the base after a change. -/
theorem watches_soundly {base : Nat} {guard : Guard Watcher Scan Round} {scans : List Scan}
    {rounds : List Round} {w : Watcher}
    (h : Exec (Watcher.step base) guard (.new base) scans rounds w) :
    EachEvent (TellsRightly base) rounds := by
  have hinv : EachEvent (TellsRightly base) rounds ∧ w.Remembers rounds := by
    induction h with
    | start =>
      refine ⟨each_event_nil, nofun, ?_, ?_⟩
      · rintro id prev since ⟨round, hstanding, -⟩
        exact absurd hstanding.mem List.not_mem_nil
      · rintro id prev since ⟨round, hstanding, -⟩
        exact absurd hstanding.mem List.not_mem_nil
    | step _ _ hnext ih =>
      obtain ⟨hlaw, hremembers⟩ := ih
      obtain ⟨round, rfl, rfl, htold, hlast, hbounds, hrestored⟩ := Watcher.step_cases hnext
      refine ⟨each_event_append.mpr ⟨hlaw, each_event_singleton.mpr ?_⟩, hremembers.step hlast⟩
      rw [List.append_nil]
      exact hremembers.tells htold hbounds hrestored
  exact hinv.1

/-- The directory of a share is as it was at first, then changes, and is as it was again. -/
def sampleScans : List Scan := [⟨[("a", 1)], true⟩, ⟨[("a", 1)], true⟩, ⟨[("a", 2)], true⟩]

/-- The rounds that follow: the watcher tells of the change, and goes back to its base. -/
def sampleRounds : List Round :=
  [⟨1000, ⟨[("a", 1)], true⟩, [], 2000⟩, ⟨0, ⟨[("a", 1)], true⟩, [], 4000⟩,
    ⟨0, ⟨[("a", 2)], true⟩, ["a"], 1000⟩]

theorem watches_soundly_sample : EachEvent (TellsRightly 1000) sampleRounds := by
  obtain ⟨⟨w, rounds⟩, hrun, rfl⟩ := Option.map_eq_some_iff.mp
    (show ((Watcher.step 1000).run .free [] (.new 1000) sampleScans).map Prod.snd =
      some sampleRounds by decide +kernel)
  exact watches_soundly (Exec.start.append_run hrun)

/-- A share is removed, and registered again with another fingerprint. -/
def readdingScans : List Scan := [⟨[("a", 1)], true⟩, ⟨[], true⟩, ⟨[("a", 2)], true⟩]

/-- It is not told of: that its fingerprint was another one has been forgotten. -/
theorem readded_not_told :
    ¬ ∀ base scans rounds w, Exec (Watcher.step base) .free (.new base) scans rounds w →
      EachEvent (fun before round => ∀ id, id ∈ round.told ↔ ∃ fp prev since,
        round.scan.fingerprint id = some fp ∧ LastSeen before id prev since ∧ prev ≠ fp) rounds := by
  intro hall
  obtain ⟨⟨w, rounds⟩, hrun, rfl⟩ := Option.map_eq_some_iff.mp
    (show ((Watcher.step 1000).run .free [] (.new 1000) readdingScans).map Prod.snd =
      some [⟨1000, ⟨[("a", 1)], true⟩, [], 2000⟩, ⟨0, ⟨[], true⟩, [], 4000⟩,
        ⟨0, ⟨[("a", 2)], true⟩, [], 8000⟩] by decide +kernel)
  have htold := (hall _ _ _ _ (Exec.start.append_run hrun) [_, _] _ [] rfl "a").mpr
    ⟨2, 1, [_], rfl, ⟨_, ⟨[], rfl, by simp [Round.Sees, Scan.fingerprint, Scan.fps]⟩, rfl⟩, by decide⟩
  cases htold

end LocalTrans.Share
