import LocalTrans.Foundation.Execution

/-!
# The log ring and its tail

`RingBuffer::push` and `RingBuffer::tail` of `ring.rs`. A push takes its number before it locks the
entries, and a tail reads the counter after it has unlocked them, so that the halves of pushes and
tails interleave; a step is one half. `tails_in_order` says when a client that goes on from the cursor
of its last page misses nothing.
-/

namespace LocalTrans

open Foundation

/-- What an entry of the log says. -/
structure LogLine where
  tsMs : Nat
  level : String
  target : String
  message : String
  runId : Option String
  step : Option String
deriving DecidableEq

/-- An entry of the log: a line and its number. -/
structure LogEntry extends LogLine where
  seq : Nat
deriving DecidableEq

/-- The cursor and the filters of a tail. -/
structure TailQuery where
  afterSeq : Nat
  level : Option String
  target : Option String
  runId : Option String

/-- What a tail returns. -/
structure TailPage where
  entries : List LogEntry
  nextSeq : Nat
deriving DecidableEq

/-- `RING_CAPACITY`. -/
def ringCapacity : Nat := 10000

/-- `TAIL_MAX_ENTRIES`. -/
def tailMaxEntries : Nat := 500

/-- The filters of a tail: the level, whatever its case, how the target begins, and the run. -/
def TailQuery.filters (q : TailQuery) (e : LogEntry) : Bool :=
  (q.level.all fun level => e.level.toList.map Char.toLower = level.toList.map Char.toLower) &&
    (q.target.all fun target => target.toList.isPrefixOf e.target.toList) &&
    q.runId.all fun runId => e.runId = some runId

/-- `entry_matches`: the number is above the cursor, and the filters let the entry pass. -/
def entryMatches (e : LogEntry) (q : TailQuery) : Bool :=
  if e.seq ≤ q.afterSeq then false else q.filters e

/-- The entries, the oldest one first, and the next number. -/
structure RingBuffer where
  entries : List LogEntry
  nextSeq : Nat

namespace RingBuffer

def new : RingBuffer := { entries := [], nextSeq := 1 }

/-- The entry that a push takes out, if the ring is full. -/
def dropped (ring : RingBuffer) : List LogEntry :=
  if ringCapacity ≤ ring.entries.length then ring.entries.take 1 else []

/-- The entries that a push leaves. -/
def left (ring : RingBuffer) : List LogEntry :=
  if ringCapacity ≤ ring.entries.length then ring.entries.drop 1 else ring.entries

/-- A push takes the next number. -/
def number (ring : RingBuffer) : RingBuffer :=
  { ring with nextSeq := (ring.nextSeq + 1) % 2 ^ 64 }

/-- A push puts its entry at the end. -/
def insert (ring : RingBuffer) (entry : LogEntry) : RingBuffer :=
  { ring with entries := ring.left ++ [entry] }

end RingBuffer

/-- The loop of a tail over the entries: those that match so far, and the number of the last one. -/
def collectPage (q : TailQuery) :
    List LogEntry → List LogEntry → Option Nat → List LogEntry × Option Nat
  | [], page, lastMatched => (page, lastMatched)
  | e :: rest, page, lastMatched =>
    if entryMatches e q then
      if tailMaxEntries ≤ (page ++ [e]).length then (page ++ [e], some e.seq)
      else collectPage q rest (page ++ [e]) (some e.seq)
    else collectPage q rest page lastMatched

/-- The ring; the entries that have a number but are not inserted yet; the query of the client, with
the cursor it passes next; and what its tail has found, if it has still to read the counter. -/
structure LogDesk where
  ring : RingBuffer
  pushing : List LogEntry
  query : TailQuery
  reading : Option (List LogEntry × Option Nat)

/-- A push takes a number or inserts its entry; the tail goes through the entries or reads the
counter. -/
inductive LogInput where
  | number (line : LogLine)
  | insert (i : Nat)
  | scan
  | load

/-- An entry is taken out or inserted, a tail has gone through the entries, or returns. -/
inductive LogEvent where
  | evicted (entry : LogEntry)
  | inserted (entry : LogEntry)
  | scanned
  | returned (page : TailPage)
deriving DecidableEq

/-- What a push does is seen. -/
def RingBuffer.pushed (ring : RingBuffer) (entry : LogEntry) : List LogEvent :=
  ring.dropped.map .evicted ++ [.inserted entry]

namespace LogDesk

/-- Nothing is logged yet. -/
def new (first : TailQuery) : LogDesk :=
  { ring := .new, pushing := [], query := first, reading := none }

/-- The cursor that a tail returns. -/
def nextSeq (s : LogDesk) : Option Nat → Nat
  | some last => last
  | none => max (s.ring.nextSeq - 1) s.query.afterSeq

/-- One half of a push or of a tail. -/
def step : Machine LogDesk LogInput LogEvent
  | s, .number line => some ({ s with
      ring := s.ring.number, pushing := s.pushing ++ [⟨line, s.ring.nextSeq⟩] }, [])
  | s, .insert i => s.pushing[i]?.map fun entry =>
    ({ s with ring := s.ring.insert entry, pushing := s.pushing.eraseIdx i },
      s.ring.pushed entry)
  | s, .scan =>
    if s.reading = none then
      some ({ s with reading := some (collectPage s.query s.ring.entries [] none) }, [.scanned])
    else none
  | s, .load => s.reading.map fun (entries, lastMatched) =>
    ({ s with query := { s.query with afterSeq := s.nextSeq lastMatched }, reading := none },
      [.returned ⟨entries, s.nextSeq lastMatched⟩])

/-- The entry comes after all that the client has seen or will see before it: its number is above
the cursor, those of the entries that the next tail finds, and those that the tail under way has
found; and that one has found some, since it skips all numbers that are taken otherwise. -/
def Follows (s : LogDesk) (entry : LogEntry) : Prop :=
  s.query.afterSeq < entry.seq ∧
    (∀ e ∈ s.ring.entries, entryMatches e s.query → e.seq < entry.seq) ∧
    ∀ found ∈ s.reading, found.1 ≠ [] ∧ ∀ e ∈ found.1, e.seq < entry.seq
deriving Decidable

/-- An entry that matches is inserted in its turn. -/
def inTurn (first : TailQuery) : Guard LogDesk LogInput LogEvent := fun _ s input =>
  match input with
  | .insert i => ∀ entry ∈ s.pushing[i]?, entryMatches entry first → s.Follows entry
  | _ => True

instance (first : TailQuery) (trace : List LogEvent) (s : LogDesk) (input : LogInput) :
    Decidable (inTurn first trace s input) := by
  unfold inTurn
  split <;> infer_instance

end LogDesk

/-- The entries that were returned, page after page. -/
def returnedEntries (trace : List LogEvent) : List LogEntry :=
  trace.flatMap fun event => match event with
    | .returned page => page.entries
    | _ => []

/-- What a page is, after some events: the cursor does not go back; the numbers of all entries that
were returned increase; these were inserted, and match; of those that match and the cursor reaches,
all were returned or taken out before; and if the page is not full, all that had been inserted when
the tail went through the entries were returned, or taken out before that. -/
structure PageRight (first : TailQuery) (before : List LogEvent) (page : TailPage) : Prop where
  rises : first.afterSeq ≤ page.nextSeq ∧
    ∀ earlier, .returned earlier ∈ before → earlier.nextSeq ≤ page.nextSeq
  increasing : (returnedEntries before ++ page.entries).Pairwise fun e f => e.seq < f.seq
  pushed : ∀ e ∈ page.entries, .inserted e ∈ before ∧ entryMatches e first
  reached : ∀ e, .inserted e ∈ before → entryMatches e first → e.seq ≤ page.nextSeq →
    e ∈ returnedEntries before ++ page.entries ∨ .evicted e ∈ before
  complete : ∀ older since, before = older ++ .scanned :: since → .scanned ∉ since →
    page.entries.length < tailMaxEntries → ∀ e, .inserted e ∈ older → entryMatches e first →
      e ∈ returnedEntries before ++ page.entries ∨ .evicted e ∈ older

/-- The pages are right. -/
def TailsRightly (first : TailQuery) (before : List LogEvent) : LogEvent → Prop
  | .returned page => PageRight first before page
  | _ => True

section Matching

variable {e : LogEntry} {q : TailQuery} {l page : List LogEntry} {lastMatched : Option Nat}
  {cursor : Nat}

theorem entry_matches_iff : entryMatches e q ↔ q.afterSeq < e.seq ∧ q.filters e := by
  unfold entryMatches
  split
  · next hle => simp [Nat.not_lt.mpr hle]
  · next hlt => simp [Nat.lt_of_not_le hlt]

/-- The cursor is all that changes in the query of a client. -/
theorem entry_matches_at :
    entryMatches e { q with afterSeq := cursor } ↔ cursor < e.seq ∧ q.filters e :=
  entry_matches_iff

/-- The entries that match, in their order. -/
def matching (q : TailQuery) (l : List LogEntry) : List LogEntry :=
  l.filter fun e => entryMatches e q

theorem matching_cons :
    matching q (e :: l) = if entryMatches e q then e :: matching q l else matching q l :=
  List.filter_cons

theorem matching_append (l page : List LogEntry) :
    matching q (l ++ page) = matching q l ++ matching q page :=
  List.filter_append l page

theorem mem_matching : e ∈ matching q l ↔ e ∈ l ∧ entryMatches e q := List.mem_filter

/-- The loop of a tail finds the first entries that match. -/
theorem collect_page_eq (h : page.length < tailMaxEntries) :
    collectPage q l page lastMatched =
      (page ++ (matching q l).take (tailMaxEntries - page.length),
        (((matching q l).take (tailMaxEntries - page.length)).getLast?.map LogEntry.seq).or
          lastMatched) := by
  induction l generalizing page lastMatched with
  | nil => simp [collectPage, matching]
  | cons e rest ih =>
    rw [matching_cons, collectPage]
    by_cases hmatch : entryMatches e q
    · have hroom : tailMaxEntries - page.length = tailMaxEntries - (page.length + 1) + 1 := by
        omega
      rw [if_pos hmatch, if_pos hmatch, hroom, List.take_succ_cons, List.getLast?_cons,
        List.length_append, List.length_singleton]
      split
      · next hfull => simp [Nat.sub_eq_zero_of_le hfull]
      · next hmore =>
        rw [ih (by simpa using Nat.lt_of_not_le hmore), List.length_append, List.length_singleton,
          List.append_assoc, List.singleton_append]
        cases ((matching q rest).take (tailMaxEntries - (page.length + 1))).getLast? with
        | none => rfl
        | some last => rfl
    · rw [if_neg hmatch, if_neg hmatch, ih h]

end Matching

section Histories

variable {trace emitted : List LogEvent} {e : LogEntry} {ring : RingBuffer}

theorem returned_append :
    returnedEntries (trace ++ emitted) = returnedEntries trace ++ returnedEntries emitted :=
  List.flatMap_append

/-- A push takes out the oldest entry or none. -/
theorem RingBuffer.dropped_append_left (ring : RingBuffer) : ring.dropped ++ ring.left = ring.entries := by
  unfold RingBuffer.dropped RingBuffer.left
  split
  · exact List.take_append_drop 1 ring.entries
  · rfl

/-- A push returns nothing. -/
theorem returned_pushed {entry : LogEntry} : returnedEntries (ring.pushed entry) = [] := by
  unfold RingBuffer.pushed
  induction ring.dropped with
  | nil => rfl
  | cons first rest ih => exact ih

@[simp] theorem mem_pushed {entry : LogEntry} {event : LogEvent} :
    event ∈ ring.pushed entry ↔ (∃ e ∈ ring.dropped, event = .evicted e) ∨ event = .inserted entry := by
  simp [RingBuffer.pushed, eq_comm]

end Histories

namespace LogDesk

variable {first : TailQuery} {trace : List LogEvent} {s next : LogDesk} {input : LogInput}
  {emitted : List LogEvent} {e entry : LogEntry} {page : List LogEntry} {lastMatched : Option Nat}

/-- What the tail under way has found: entries that match, in the order of their numbers, and the
number of the last one; all others that match have higher numbers; and if they are fewer than a page
holds, then all that had been inserted were found, or were returned or taken out before. -/
structure Found (first : TailQuery) (trace : List LogEvent) (s : LogDesk) (page : List LogEntry)
    (lastMatched : Option Nat) : Prop where
  last : lastMatched = page.getLast?.map LogEntry.seq
  sorted : page.Pairwise fun e f => e.seq < f.seq
  fits : ∀ e ∈ page, .inserted e ∈ trace ∧ entryMatches e s.query
  rest : ∀ e ∈ s.ring.entries, entryMatches e s.query →
    e ∈ page ∨ page ≠ [] ∧ ∀ f ∈ page, f.seq < e.seq
  whole : ∀ older since, trace = older ++ .scanned :: since → .scanned ∉ since →
    page.length < tailMaxEntries → ∀ e, .inserted e ∈ older → entryMatches e first →
      e ∈ returnedEntries trace ++ page ∨ .evicted e ∈ older

/-- What holds between the halves of pushes and tails. -/
structure Steady (first : TailQuery) (trace : List LogEvent) (s : LogDesk) : Prop where
  query : ∃ cursor, first.afterSeq ≤ cursor ∧ s.query = { first with afterSeq := cursor }
  earlier : ∀ page, .returned page ∈ trace → page.nextSeq ≤ s.query.afterSeq
  below : ∀ e ∈ returnedEntries trace, e.seq ≤ s.query.afterSeq
  increasing : (returnedEntries trace).Pairwise fun e f => e.seq < f.seq
  inserted : ∀ e ∈ s.ring.entries, .inserted e ∈ trace
  sorted : (matching s.query s.ring.entries).Pairwise fun e f => e.seq < f.seq
  kept : ∀ e, .inserted e ∈ trace → entryMatches e first →
    e ∈ returnedEntries trace ∨ .evicted e ∈ trace ∨
      e ∈ s.ring.entries ∧ s.query.afterSeq < e.seq
  reading : ∀ page lastMatched, s.reading = some (page, lastMatched) →
    Found first trace s page lastMatched

/-- What matches with the cursor of the client matches with its first one. -/
theorem Steady.matches_first (h : Steady first trace s) :
    entryMatches e s.query ↔ entryMatches e first ∧ s.query.afterSeq < e.seq := by
  obtain ⟨cursor, hle, hquery⟩ := h.query
  rw [hquery, entry_matches_at, entry_matches_iff]
  exact ⟨fun ⟨hlt, hfilters⟩ => ⟨⟨Nat.lt_of_le_of_lt hle hlt, hfilters⟩, hlt⟩,
    fun ⟨⟨_, hfilters⟩, hlt⟩ => ⟨hlt, hfilters⟩⟩

/-- Where nothing is logged yet, all is in order. -/
theorem steady_new : Steady first [] (new first) where
  query := ⟨first.afterSeq, Nat.le_refl _, rfl⟩
  earlier := nofun
  below := nofun
  increasing := List.Pairwise.nil
  inserted := nofun
  sorted := List.Pairwise.nil
  kept := nofun
  reading := nofun

/-- An insertion in its turn keeps all in order. -/
theorem Steady.insert (h : Steady first trace s) {i : Nat} (hentry : s.pushing[i]? = some entry)
    (hturn : entryMatches entry first → s.Follows entry) :
    Steady first (trace ++ s.ring.pushed entry)
      { s with ring := s.ring.insert entry, pushing := s.pushing.eraseIdx i } := by
  have hreturned : returnedEntries (trace ++ s.ring.pushed entry) = returnedEntries trace := by
    rw [returned_append, returned_pushed, List.append_nil]
  have hleft : ∀ e ∈ s.ring.left, e ∈ s.ring.entries := by
    intro e hmem
    rw [← s.ring.dropped_append_left]
    exact List.mem_append_right _ hmem
  constructor
  · exact h.query
  · intro page hmem
    exact h.earlier page (by simpa using hmem)
  · rw [hreturned]
    exact h.below
  · rw [hreturned]
    exact h.increasing
  · intro e hmem
    rcases List.mem_append.mp hmem with hold | hnew
    · exact List.mem_append_left _ (h.inserted e (hleft e hold))
    · obtain rfl := List.mem_singleton.mp hnew
      simp
  · show (matching s.query (s.ring.left ++ [entry])).Pairwise _
    rw [matching_append]
    refine List.pairwise_append.mpr ⟨?_, ?_, ?_⟩
    · refine h.sorted.sublist (List.Sublist.filter _ ?_)
      rw [← s.ring.dropped_append_left]
      exact List.sublist_append_right _ _
    · exact List.Pairwise.sublist List.filter_sublist (List.pairwise_singleton _ _)
    · intro e hold f hnew
      obtain ⟨hmem, hmatch⟩ := mem_matching.mp hold
      obtain ⟨hf, hfirst⟩ := mem_matching.mp hnew
      obtain rfl := List.mem_singleton.mp hf
      exact (hturn (h.matches_first.mp hfirst).1).2.1 e (hleft e hmem) hmatch
  · intro e hmem hmatch
    rw [hreturned]
    rcases List.mem_append.mp hmem with hold | hnew
    · rcases h.kept e hold hmatch with hback | hout | ⟨hin, hlt⟩
      · exact .inl hback
      · exact .inr (.inl (List.mem_append_left _ hout))
      · rw [← s.ring.dropped_append_left] at hin
        rcases List.mem_append.mp hin with hdropped | hleft
        · exact .inr (.inl (List.mem_append_right _ (mem_pushed.mpr (.inl ⟨e, hdropped, rfl⟩))))
        · exact .inr (.inr ⟨List.mem_append_left _ hleft, hlt⟩)
    · obtain rfl : e = entry := by simpa using hnew
      exact .inr (.inr ⟨List.mem_append_right _ List.mem_cons_self, (hturn hmatch).1⟩)
  · intro page lastMatched hreading
    have hfound := h.reading page lastMatched hreading
    refine ⟨hfound.last, hfound.sorted, fun e hmem => ?_, fun e hmem hmatch => ?_, ?_⟩
    · obtain ⟨hin, hmatch⟩ := hfound.fits e hmem
      exact ⟨List.mem_append_left _ hin, hmatch⟩
    · rcases List.mem_append.mp hmem with hold | hnew
      · exact hfound.rest e (hleft e hold) hmatch
      · obtain rfl := List.mem_singleton.mp hnew
        exact .inr ((hturn (h.matches_first.mp hmatch).1).2.2 _ hreading)
    · intro older since hsplit hsince hpart e hmem hmatch
      rw [hreturned]
      rcases split_append hsplit with ⟨between, -, htail⟩ | ⟨between, rfl, hbefore⟩
      · have hscanned : LogEvent.scanned ∈ s.ring.pushed entry := by simp [htail]
        simp at hscanned
      · exact hfound.whole older between hbefore (fun hmem => hsince (by simp [hmem])) hpart e hmem
          hmatch

/-- The tail that has gone through the entries has found what it should. -/
theorem Steady.found (h : Steady first trace s) :
    Found first (trace ++ [.scanned]) s ((matching s.query s.ring.entries).take tailMaxEntries)
      (((matching s.query s.ring.entries).take tailMaxEntries).getLast?.map LogEntry.seq) := by
  have hsplit := List.take_append_drop tailMaxEntries (matching s.query s.ring.entries)
  refine ⟨rfl, h.sorted.sublist (List.take_sublist _ _), fun e hmem => ?_, fun e hmem hmatch => ?_, ?_⟩
  · obtain ⟨hin, hmatch⟩ := mem_matching.mp (List.mem_of_mem_take hmem)
    exact ⟨List.mem_append_left _ (h.inserted e hin), hmatch⟩
  · have hfound : e ∈ matching s.query s.ring.entries := mem_matching.mpr ⟨hmem, hmatch⟩
    rw [← hsplit] at hfound
    rcases List.mem_append.mp hfound with htake | hdrop
    · exact .inl htake
    · refine .inr ⟨fun hnone => ?_, fun f hf => ?_⟩
      · rcases List.take_eq_nil_iff.mp hnone with hzero | hempty
        · cases hzero
        · rw [hempty, List.drop_nil] at hdrop
          cases hdrop
      · have hsorted := h.sorted
        rw [← hsplit] at hsorted
        exact (List.pairwise_append.mp hsorted).2.2 f hf e hdrop
  · intro older since hsplit' hsince hpart e hmem hmatch
    obtain rfl : trace = older := by
      rcases List.eq_nil_or_concat since with rfl | ⟨before, final, rfl⟩
      · exact (List.append_inj' hsplit' rfl).1
      · rw [List.concat_eq_append, ← List.cons_append, ← List.append_assoc] at hsplit'
        obtain ⟨-, hlast⟩ := List.append_inj' hsplit' rfl
        obtain rfl := (List.cons.inj hlast).1
        exact absurd (by simp) hsince
    have hall : (matching s.query s.ring.entries).take tailMaxEntries =
        matching s.query s.ring.entries := by
      refine List.take_of_length_le (Nat.le_of_not_lt fun hmore => ?_)
      rw [List.length_take_of_le (Nat.le_of_lt hmore)] at hpart
      exact absurd hpart (Nat.lt_irrefl _)
    rw [hall, returned_append]
    rcases h.kept e hmem hmatch with hback | hout | ⟨hin, hlt⟩
    · exact .inl (List.mem_append_left _ (List.mem_append_left _ hback))
    · exact .inr hout
    · exact .inl (List.mem_append_right _ (mem_matching.mpr ⟨hin, h.matches_first.mpr ⟨hmatch, hlt⟩⟩))

/-- The cursor that is returned: it does not go back, is not below what was found, and is the number
of an entry if any was found. -/
theorem Found.cursor (h : Found first trace s page lastMatched) :
    s.query.afterSeq ≤ s.nextSeq lastMatched ∧ (∀ e ∈ page, e.seq ≤ s.nextSeq lastMatched) ∧
      (page ≠ [] → ∃ e ∈ page, e.seq = s.nextSeq lastMatched) := by
  rcases List.eq_nil_or_concat page with rfl | ⟨older, final, rfl⟩
  · rw [h.last]
    exact ⟨Nat.le_max_right _ _, nofun, fun hnone => absurd rfl hnone⟩
  · rw [List.concat_eq_append] at h ⊢
    have hlast : s.nextSeq lastMatched = final.seq := by
      rw [h.last, List.getLast?_concat]
      rfl
    have hmatch := (h.fits final (by simp)).2
    rw [hlast]
    refine ⟨Nat.le_of_lt (entry_matches_iff.mp hmatch).1, fun e hmem => ?_, fun _ => ⟨final, by simp, rfl⟩⟩
    rcases List.mem_append.mp hmem with hold | hnew
    · exact Nat.le_of_lt ((List.pairwise_append.mp h.sorted).2.2 e hold final (by simp))
    · exact Nat.le_of_eq (congrArg LogEntry.seq (List.mem_singleton.mp hnew))

/-- The page that is returned is right. -/
theorem Steady.page_right (h : Steady first trace s) (hfound : Found first trace s page lastMatched) :
    PageRight first trace ⟨page, s.nextSeq lastMatched⟩ := by
  obtain ⟨hrises, hbelow, hlast⟩ := hfound.cursor
  have hmatch : ∀ e ∈ page, entryMatches e first ∧ s.query.afterSeq < e.seq :=
    fun e hmem => h.matches_first.mp (hfound.fits e hmem).2
  constructor
  · obtain ⟨cursor, hle, hquery⟩ := h.query
    refine ⟨Nat.le_trans hle ?_, fun earlier hmem => Nat.le_trans (h.earlier earlier hmem) hrises⟩
    rw [hquery] at hrises
    exact hrises
  · refine List.pairwise_append.mpr ⟨h.increasing, hfound.sorted, fun e hold f hnew => ?_⟩
    exact Nat.lt_of_le_of_lt (h.below e hold) (hmatch f hnew).2
  · exact fun e hmem => ⟨(hfound.fits e hmem).1, (hmatch e hmem).1⟩
  · intro e hmem hfirst hreach
    rcases h.kept e hmem hfirst with hback | hout | ⟨hin, hlt⟩
    · exact .inl (List.mem_append_left _ hback)
    · exact .inr hout
    · rcases hfound.rest e hin (h.matches_first.mpr ⟨hfirst, hlt⟩) with hpage | ⟨hsome, hall⟩
      · exact .inl (List.mem_append_right _ hpage)
      · obtain ⟨f, hf, hseq⟩ := hlast hsome
        exact absurd (hall f hf) (Nat.not_lt.mpr (hseq ▸ hreach))
  · exact hfound.whole

/-- All is in order when a page has been returned. -/
theorem Steady.load (h : Steady first trace s) (hfound : Found first trace s page lastMatched) :
    Steady first (trace ++ [.returned ⟨page, s.nextSeq lastMatched⟩])
      { s with query := { s.query with afterSeq := s.nextSeq lastMatched }, reading := none } := by
  obtain ⟨hrises, hbelow, -⟩ := hfound.cursor
  have hright := h.page_right hfound
  have hreturned : returnedEntries (trace ++ [.returned ⟨page, s.nextSeq lastMatched⟩]) =
      returnedEntries trace ++ page := by
    simp [returnedEntries]
  constructor
  · obtain ⟨cursor, -, hquery⟩ := h.query
    exact ⟨_, hright.rises.1, by rw [hquery]⟩
  · intro earlier hmem
    rcases List.mem_append.mp hmem with hold | hnew
    · exact hright.rises.2 earlier hold
    · obtain rfl := LogEvent.returned.inj (List.mem_singleton.mp hnew)
      exact Nat.le_refl _
  · intro e hmem
    rw [hreturned] at hmem
    rcases List.mem_append.mp hmem with hold | hnew
    · exact Nat.le_trans (h.below e hold) hrises
    · exact hbelow e hnew
  · rw [hreturned]
    exact hright.increasing
  · exact fun e hmem => List.mem_append_left _ (h.inserted e hmem)
  · refine h.sorted.sublist (List.monotone_filter_right _ fun e hmatch => ?_)
    obtain ⟨hlt, hfilters⟩ := entry_matches_at.mp hmatch
    exact entry_matches_iff.mpr ⟨Nat.lt_of_le_of_lt hrises hlt, hfilters⟩
  · intro e hmem hmatch
    rw [hreturned]
    have hin : .inserted e ∈ trace := by simpa using hmem
    by_cases hreach : e.seq ≤ s.nextSeq lastMatched
    · rcases hright.reached e hin hmatch hreach with hback | hout
      · exact .inl hback
      · exact .inr (.inl (List.mem_append_left _ hout))
    · rcases h.kept e hin hmatch with hback | hout | ⟨hring, -⟩
      · exact .inl (List.mem_append_left _ hback)
      · exact .inr (.inl (List.mem_append_left _ hout))
      · exact .inr (.inr ⟨hring, Nat.lt_of_not_le hreach⟩)
  · exact nofun

/-- All is in order when a tail has gone through the entries. -/
theorem Steady.scan (h : Steady first trace s) :
    Steady first (trace ++ [.scanned])
      { s with reading := some (collectPage s.query s.ring.entries [] none) } := by
  have hreturned : returnedEntries (trace ++ [.scanned]) = returnedEntries trace := by
    rw [returned_append]
    exact List.append_nil _
  constructor
  · exact h.query
  · exact fun page hmem => h.earlier page (by simpa using hmem)
  · rw [hreturned]
    exact h.below
  · rw [hreturned]
    exact h.increasing
  · exact fun e hmem => List.mem_append_left _ (h.inserted e hmem)
  · exact h.sorted
  · intro e hmem hmatch
    rw [hreturned]
    rcases h.kept e (by simpa using hmem) hmatch with hback | hout | hin
    · exact .inl hback
    · exact .inr (.inl (List.mem_append_left _ hout))
    · exact .inr (.inr hin)
  · intro page lastMatched hreading
    rw [collect_page_eq (by decide)] at hreading
    obtain ⟨rfl, rfl⟩ := answer_inj hreading
    rw [Option.or_none]
    obtain ⟨hlast, hsorted, hfits, hrest, hwhole⟩ := h.found
    exact ⟨hlast, hsorted, hfits, hrest, hwhole⟩

/-- All is in order when a push has taken its number. -/
theorem Steady.number (h : Steady first trace s) (line : LogLine) :
    Steady first trace
      { s with ring := s.ring.number, pushing := s.pushing ++ [⟨line, s.ring.nextSeq⟩] } := by
  refine { h with reading := ?_ }
  intro page lastMatched hreading
  obtain ⟨hlast, hsorted, hfits, hrest, hwhole⟩ := h.reading page lastMatched hreading
  exact ⟨hlast, hsorted, hfits, hrest, hwhole⟩

/-- One half of a push or of a tail keeps all in order, and the page it returns is right. -/
theorem Steady.step (h : Steady first trace s) (hturn : inTurn first trace s input)
    (hnext : LogDesk.step s input = some (next, emitted)) :
    EachEvent (fun between => TailsRightly first (trace ++ between)) emitted ∧
      Steady first (trace ++ emitted) next := by
  cases input with
  | number line =>
    obtain ⟨rfl, rfl⟩ := answer_inj hnext
    rw [List.append_nil]
    exact ⟨each_event_nil, h.number line⟩
  | insert i =>
    obtain ⟨entry, hentry, heq⟩ := Option.map_eq_some_iff.mp hnext
    obtain ⟨rfl, rfl⟩ := Prod.mk.inj heq
    refine ⟨fun before event after hsplit => ?_, h.insert hentry (hturn entry hentry)⟩
    have hmem : event ∈ s.ring.pushed entry := by simp [hsplit]
    rcases mem_pushed.mp hmem with ⟨e, -, rfl⟩ | rfl
    · trivial
    · trivial
  | scan =>
    obtain ⟨-, heq⟩ := Option.ite_none_right_eq_some.mp hnext
    obtain ⟨rfl, rfl⟩ := answer_inj heq
    exact ⟨each_event_singleton.mpr trivial, h.scan⟩
  | load =>
    obtain ⟨⟨page, lastMatched⟩, hreading, heq⟩ := Option.map_eq_some_iff.mp hnext
    obtain ⟨rfl, rfl⟩ := Prod.mk.inj heq
    have hfound := h.reading page lastMatched hreading
    refine ⟨each_event_singleton.mpr ?_, h.load hfound⟩
    rw [List.append_nil]
    exact h.page_right hfound

end LogDesk

/-- In every run in which each entry that matches is inserted in its turn, a client that goes on from
the cursor of its last page gets right pages. -/
theorem tails_in_order {first : TailQuery} {inputs : List LogInput} {trace : List LogEvent}
    {s : LogDesk} (h : Exec LogDesk.step (LogDesk.inTurn first) (.new first) inputs trace s) :
    EachEvent (TailsRightly first) trace := by
  have hinv : EachEvent (TailsRightly first) trace ∧ s.Steady first trace := by
    induction h with
    | start => exact ⟨each_event_nil, LogDesk.steady_new⟩
    | step _ hturn hnext ih =>
      obtain ⟨hlaw, hsteady⟩ := ih
      obtain ⟨hnew, hafter⟩ := hsteady.step hturn hnext
      exact ⟨each_event_append.mpr ⟨hlaw, hnew⟩, hafter⟩
  exact hinv.1

/-- A client that asks for all entries. -/
def wholeLog : TailQuery := { afterSeq := 0, level := none, target := none, runId := none }

/-- A line of the log. -/
def sampleLine (message : String) : LogLine :=
  { tsMs := 0, level := "INFO", target := "ui", message, runId := none, step := none }

/-- Two entries are pushed, the second one while a tail is under way, and tails return both. -/
def orderlyPushes : List LogInput :=
  [.number (sampleLine "a"), .insert 0, .scan, .number (sampleLine "b"), .insert 0, .load,
    .scan, .load]

/-- What is seen of it. -/
def orderlyTrace : List LogEvent :=
  [.inserted ⟨sampleLine "a", 1⟩, .scanned, .inserted ⟨sampleLine "b", 2⟩,
    .returned ⟨[⟨sampleLine "a", 1⟩], 1⟩, .scanned, .returned ⟨[⟨sampleLine "b", 2⟩], 2⟩]

theorem tails_in_order_sample : EachEvent (TailsRightly wholeLog) orderlyTrace := by
  obtain ⟨⟨s, trace⟩, hrun, rfl⟩ := Option.map_eq_some_iff.mp
    (show (Machine.run LogDesk.step (LogDesk.inTurn wholeLog) [] (.new wholeLog) orderlyPushes).map
      Prod.snd = some orderlyTrace by decide +kernel)
  exact tails_in_order (Exec.start.append_run hrun)

/-- The second push takes its number after the first one and inserts its entry before it; a tail in
between returns the second entry. -/
def crossedPushes : List LogInput :=
  [.number (sampleLine "a"), .number (sampleLine "b"), .insert 1, .scan, .load, .insert 0, .scan,
    .load]

/-- The first entry is never returned: the cursor is past its number when it is inserted. -/
theorem crossed_push_lost :
    ∃ trace s, Exec LogDesk.step .free (.new wholeLog) crossedPushes trace s ∧
      ¬ EachEvent (TailsRightly wholeLog) trace := by
  obtain ⟨⟨s, trace⟩, hrun, htrace⟩ := Option.map_eq_some_iff.mp
    (show (Machine.run LogDesk.step .free [] (.new wholeLog) crossedPushes).map Prod.snd =
      some [.inserted ⟨sampleLine "b", 2⟩, .scanned, .returned ⟨[⟨sampleLine "b", 2⟩], 2⟩,
        .inserted ⟨sampleLine "a", 1⟩, .scanned, .returned ⟨[], 2⟩] by decide +kernel)
  refine ⟨trace, s, Exec.start.append_run hrun, fun hlaw => ?_⟩
  have hright : PageRight wholeLog _ ⟨[], 2⟩ := hlaw [_, _, _, _, _] _ [] htrace
  have hreached := hright.reached ⟨sampleLine "a", 1⟩ (by simp) (by decide +kernel) (by decide)
  revert hreached
  decide +kernel

end LocalTrans
