import LocalTrans.Discovery.Devices
import LocalTrans.Foundation.Collect
import LocalTrans.Foundation.Sorting
import Mathlib.Data.Prod.Lex
import Mathlib.Data.String.Basic

/-!
# The list of devices

`merge_devices`: the devices that were discovered, those of the roster, and the trusted ones, as one
list. `firstSource` says which entry of the three a fingerprint is shown with, and `Archived` which
fingerprints are left out because another device has their name. `merge_devices_lists` says that the
list is made of the others, once each and in a fixed order, and `hidden_superseded` what is known of
those that are left out.
-/

namespace LocalTrans.Discovery

open Foundation Relay

/-- `MergedDevice`. -/
structure MergedDevice where
  fingerprint : String
  name : String
  addr : String
  online : Bool
  connected : Bool
  viaRelay : Bool
deriving DecidableEq

/-- What `merge_devices` reads: its arguments; the monotonic clock, as the discovered devices are
entered and as old entries are looked for; and the wall clock, in seconds. A trusted device is its
fingerprint, its name, and when it was paired. -/
structure MergeInput where
  locals : List DeviceInfo
  roster : List RemoteDevice
  connected : List String
  aliases : Map String String
  trusted : List (String × String × Nat)
  now : Nat
  later : Nat
  nowUnix : Nat

/-- `STALE_DUPLICATE_SECS`. -/
def staleDuplicateSecs : Nat := 24 * 60 * 60

/-- The seconds since an instant. -/
def elapsedSecs (now instant : Nat) : Nat := (now - instant) / 1000

namespace MergeInput

variable (input : MergeInput)

/-- The alias of a device, if it has one, else a name from elsewhere. -/
def displayName (fp name : String) : String :=
  ((input.aliases.lookup fp).filter (· ≠ "")).getD name

/-- The entry of a discovered device. -/
def ofLocal (d : DeviceInfo) : MergedDevice where
  fingerprint := hexEncode d.fingerprint
  name := input.displayName (hexEncode d.fingerprint) d.name
  addr := d.addr.text
  online := elapsedSecs input.now d.lastSeen < 30
  connected := hexEncode d.fingerprint ∈ input.connected
  viaRelay := false

/-- The entry of a device of the roster. -/
def ofRoster (r : RemoteDevice) : MergedDevice where
  fingerprint := hexEncode r.fingerprint
  name := input.displayName (hexEncode r.fingerprint) r.name
  addr := r.leaseAddr.text
  online := true
  connected := hexEncode r.fingerprint ∈ input.connected
  viaRelay := true

/-- The entry of a trusted device. -/
def ofTrusted (peer : String × String × Nat) : MergedDevice where
  fingerprint := peer.1
  name := input.displayName peer.1 peer.2.1
  addr := ""
  online := false
  connected := peer.1 ∈ input.connected
  viaRelay := false

/-- The entries of all sources, before any is left out. -/
def merged : Map String MergedDevice :=
  let found := collect ∅ (fun d => hexEncode d.fingerprint) input.ofLocal input.locals
  let known := supply found (fun r => hexEncode r.fingerprint) input.ofRoster input.roster
  supply known Prod.fst input.ofTrusted input.trusted

/-- `local_last_seen`. -/
def localLastSeen : Map String Nat :=
  collect ∅ (fun d => hexEncode d.fingerprint) DeviceInfo.lastSeen input.locals

/-- `paired_at_by_fp`. -/
def pairedAtByFp : Map String Nat :=
  collect ∅ Prod.fst (fun peer => peer.2.2) input.trusted

/-- A fingerprint that was not seen for a day, or was not discovered and was paired a day ago. -/
def stale (fp : String) : Bool :=
  match input.localLastSeen.lookup fp with
  | some seen => staleDuplicateSecs ≤ elapsedSecs input.later seen
  | none =>
    match input.pairedAtByFp.lookup fp with
    | some pairedAt => 0 < pairedAt && staleDuplicateSecs ≤ input.nowUnix - pairedAt
    | none => false

/-- The filter for `stale_fps`. -/
def archives (fp : String) (d : MergedDevice) : Bool :=
  !d.online &&
    (input.merged.entries.any fun o => o.2.fingerprint ≠ d.fingerprint && o.2.name = d.name) &&
    input.stale fp

end MergeInput

/-- The order of the list: connected devices first, then those that are online, by name, and by
fingerprint. -/
def MergedDevice.place (d : MergedDevice) : Boolᵒᵈ ×ₗ Boolᵒᵈ ×ₗ String ×ₗ String :=
  toLex (OrderDual.toDual d.connected,
    toLex (OrderDual.toDual d.online, toLex (d.name, d.fingerprint)))

/-- `merge_devices`. -/
def mergeDevices (input : MergeInput) : List MergedDevice :=
  sortBy MergedDevice.place
    ((input.merged.retain fun fp d => !input.archives fp d).entries.map Sigma.snd)

namespace MergeInput

variable (input : MergeInput)

/-- A source has the fingerprint. -/
def Occurs (fp : String) : Prop :=
  (∃ d ∈ input.locals, hexEncode d.fingerprint = fp) ∨
    (∃ r ∈ input.roster, hexEncode r.fingerprint = fp) ∨ ∃ peer ∈ input.trusted, peer.1 = fp

/-- The entry of a fingerprint from the first source that has it: of the discovered devices the last
one, of the roster and of the trusted devices the first. -/
def firstSource (fp : String) : Option MergedDevice :=
  ((input.locals.reverse.find? fun d => hexEncode d.fingerprint = fp).map input.ofLocal).or
    (((input.roster.find? fun r => hexEncode r.fingerprint = fp).map input.ofRoster).or
      ((input.trusted.find? fun peer => peer.1 = fp).map input.ofTrusted))

/-- The last sign of a fingerprint is a day old: that it was seen, or where it was never discovered,
that it was paired. -/
def Old (fp : String) : Prop :=
  match input.locals.reverse.find? fun d => hexEncode d.fingerprint = fp with
  | some d => staleDuplicateSecs ≤ elapsedSecs input.later d.lastSeen
  | none => ∃ peer, input.trusted.reverse.find? (fun peer => peer.1 = fp) = some peer ∧
      0 < peer.2.2 ∧ staleDuplicateSecs ≤ input.nowUnix - peer.2.2

/-- A device that is offline, is old, and has its name in common with another one. -/
def Archived (fp : String) : Prop :=
  ∃ d, input.firstSource fp = some d ∧ d.online = false ∧ input.Old fp ∧
    ∃ other o, other ≠ fp ∧ input.firstSource other = some o ∧ o.name = d.name

/-- No source has a fingerprint twice. -/
structure Distinct : Prop where
  locals : (input.locals.map fun d => hexEncode d.fingerprint).Nodup
  roster : (input.roster.map fun r => hexEncode r.fingerprint).Nodup
  trusted : (input.trusted.map Prod.fst).Nodup

end MergeInput

section Lists

variable {input other : MergeInput} {fp : String} {d : MergedDevice}

theorem lookup_merged : input.merged.lookup fp = input.firstSource fp := by
  unfold MergeInput.merged MergeInput.firstSource
  rw [lookup_supply, lookup_supply, lookup_collect, AList.lookup_empty, Option.or_none,
    Option.or_assoc]

/-- An entry has the fingerprint it is found with. -/
theorem fingerprint_of_source (h : input.firstSource fp = some d) : d.fingerprint = fp := by
  unfold MergeInput.firstSource at h
  rcases Option.or_eq_some_iff.mp h with h | ⟨-, h⟩
  · obtain ⟨found, hfound, rfl⟩ := Option.map_eq_some_iff.mp h
    simpa [MergeInput.ofLocal] using List.find?_some hfound
  · rcases Option.or_eq_some_iff.mp h with h | ⟨-, h⟩
    · obtain ⟨found, hfound, rfl⟩ := Option.map_eq_some_iff.mp h
      simpa [MergeInput.ofRoster] using List.find?_some hfound
    · obtain ⟨found, hfound, rfl⟩ := Option.map_eq_some_iff.mp h
      simpa [MergeInput.ofTrusted] using List.find?_some hfound

theorem occurs_iff : input.Occurs fp ↔ ∃ d, input.firstSource fp = some d := by
  rw [← Option.isSome_iff_exists]
  simp [MergeInput.firstSource, MergeInput.Occurs, List.find?_isSome]

theorem stale_iff : input.stale fp = true ↔ input.Old fp := by
  unfold MergeInput.stale MergeInput.Old MergeInput.localLastSeen MergeInput.pairedAtByFp
  simp only [lookup_collect, AList.lookup_empty, Option.or_none]
  cases input.locals.reverse.find? fun d => hexEncode d.fingerprint = fp with
  | some seen => simp
  | none => cases input.trusted.reverse.find? fun peer => peer.1 = fp <;> simp

/-- The filter takes out the entries that are archived. -/
theorem archives_iff (h : input.firstSource fp = some d) :
    input.archives fp d = true ↔ input.Archived fp := by
  have hany : (input.merged.entries.any fun o =>
      o.2.fingerprint ≠ d.fingerprint && o.2.name = d.name) = true ↔
      ∃ other o, other ≠ fp ∧ input.firstSource other = some o ∧ o.name = d.name := by
    rw [List.any_eq_true]
    constructor
    · rintro ⟨⟨other, o⟩, hmem, hsame⟩
      have ho : input.firstSource other = some o := by
        rw [← lookup_merged]
        exact mem_entries_iff.mp hmem
      obtain ⟨hne, hname⟩ : o.fingerprint ≠ d.fingerprint ∧ o.name = d.name := by simpa using hsame
      rw [fingerprint_of_source ho, fingerprint_of_source h] at hne
      exact ⟨other, o, hne, ho, hname⟩
    · rintro ⟨other, o, hne, ho, hname⟩
      refine ⟨⟨other, o⟩, mem_entries_iff.mpr (lookup_merged.trans ho), ?_⟩
      simpa [fingerprint_of_source ho, fingerprint_of_source h] using ⟨hne, hname⟩
  unfold MergeInput.archives MergeInput.Archived
  rw [Bool.and_eq_true, Bool.and_eq_true, hany, stale_iff, h]
  constructor
  · rintro ⟨⟨hoffline, hother⟩, hold⟩
    exact ⟨d, rfl, by simpa using hoffline, hold, hother⟩
  · rintro ⟨_, hsame, hoffline, hold, hother⟩
    obtain rfl := Option.some.inj hsame
    exact ⟨⟨by simpa using hoffline, hother⟩, hold⟩

/-- The devices of the list. -/
theorem mem_merge_devices : d ∈ mergeDevices input ↔
    input.firstSource d.fingerprint = some d ∧ ¬ input.Archived d.fingerprint := by
  have hentry : ∀ fp d, (⟨fp, d⟩ : Σ _ : String, MergedDevice) ∈
      (input.merged.retain fun fp d => !input.archives fp d).entries ↔
      input.firstSource fp = some d ∧ ¬ input.Archived fp := by
    intro fp d
    rw [mem_entries_iff, lookup_retain_iff, lookup_merged]
    refine and_congr_right fun h => ?_
    rw [← archives_iff h]
    simp
  unfold mergeDevices
  rw [mem_sort_by, List.mem_map]
  constructor
  · rintro ⟨⟨fp, d⟩, hmem, rfl⟩
    obtain ⟨hsource, hkept⟩ := (hentry fp d).mp hmem
    rw [fingerprint_of_source hsource]
    exact ⟨hsource, hkept⟩
  · intro h
    exact ⟨⟨d.fingerprint, d⟩, (hentry _ d).mpr h, rfl⟩

/-- The list has a fingerprint once. -/
theorem merge_devices_nodup : ((mergeDevices input).map MergedDevice.fingerprint).Nodup := by
  unfold mergeDevices
  refine ((sort_by_perm _ _).map _).nodup_iff.mpr ?_
  have hkeys : (((input.merged.retain fun fp d => !input.archives fp d).entries.map Sigma.snd).map
      MergedDevice.fingerprint) =
        (input.merged.retain fun fp d => !input.archives fp d).entries.keys := by
    rw [List.map_map]
    refine List.map_congr_left fun entry hmem => ?_
    obtain ⟨fp, d⟩ := entry
    have hlookup := (lookup_retain_iff.mp (mem_entries_iff.mp hmem)).1
    rw [lookup_merged] at hlookup
    exact fingerprint_of_source hlookup
  rw [hkeys]
  exact (input.merged.retain fun fp d => !input.archives fp d).nodupKeys

/-- The order tells any two devices apart. -/
theorem fingerprint_of_place {a b : MergedDevice} (h : a.place = b.place) :
    a.fingerprint = b.fingerprint :=
  congrArg (fun place => (ofLex (ofLex (ofLex place).2).2).2) h

/-- The list is in the order of the places. -/
theorem merge_devices_sorted : (mergeDevices input).Pairwise fun a b => a.place < b.place := by
  have hdistinct : (mergeDevices input).Pairwise fun a b => a.fingerprint ≠ b.fingerprint :=
    List.pairwise_map.mp merge_devices_nodup
  have hsorted : (mergeDevices input).Pairwise fun a b => a.place ≤ b.place := sort_by_sorted _ _
  refine (hsorted.and hdistinct).imp fun ⟨hle, hne⟩ => ?_
  exact lt_of_le_of_ne hle fun heq => hne (fingerprint_of_place heq)

/-- Where the fingerprints have the same entries, and the same ones are old, the lists are equal. -/
theorem merge_devices_congr (hsource : ∀ fp, other.firstSource fp = input.firstSource fp)
    (hold : ∀ fp, other.Old fp ↔ input.Old fp) : mergeDevices other = mergeDevices input := by
  have hmem : ∀ d, d ∈ mergeDevices other ↔ d ∈ mergeDevices input := by
    intro d
    rw [mem_merge_devices, mem_merge_devices]
    simp only [MergeInput.Archived, hsource, hold]
  have hperm : (mergeDevices other).Perm (mergeDevices input) :=
    (List.perm_ext_iff_of_nodup merge_devices_nodup.of_map merge_devices_nodup.of_map).mpr hmem
  refine hperm.eq_of_pairwise ?_ merge_devices_sorted merge_devices_sorted
  intro a b _ _ hab hba
  exact absurd hab (lt_asymm hba)

/-- Where the fingerprints of each source are distinct, its order does not matter. -/
theorem merge_devices_reordered (hdistinct : input.Distinct) {locals : List DeviceInfo}
    {roster : List RemoteDevice} {trusted : List (String × String × Nat)}
    (hlocals : input.locals.Perm locals) (hroster : input.roster.Perm roster)
    (htrusted : input.trusted.Perm trusted) :
    mergeDevices { input with locals, roster, trusted } = mergeDevices input := by
  have hlast : ∀ fp, (locals.reverse.find? fun d => hexEncode d.fingerprint = fp) =
      input.locals.reverse.find? fun d => hexEncode d.fingerprint = fp := by
    intro fp
    rw [find_reverse (fun d : DeviceInfo => hexEncode d.fingerprint) hdistinct.locals]
    exact (find_of_perm _ (hlocals.trans (List.reverse_perm _).symm) hdistinct.locals fp).symm
  have hpaired : ∀ fp, (trusted.reverse.find? fun peer => peer.1 = fp) =
      input.trusted.reverse.find? fun peer => peer.1 = fp := by
    intro fp
    rw [find_reverse Prod.fst hdistinct.trusted]
    exact (find_of_perm _ (htrusted.trans (List.reverse_perm _).symm) hdistinct.trusted fp).symm
  refine merge_devices_congr (fun fp => ?_) fun fp => ?_
  · unfold MergeInput.firstSource
    dsimp only
    rw [hlast fp, ← find_of_perm (fun r : RemoteDevice => hexEncode r.fingerprint) hroster
      hdistinct.roster fp, ← find_of_perm Prod.fst htrusted hdistinct.trusted fp]
    rfl
  · unfold MergeInput.Old
    dsimp only
    rw [hlast fp, hpaired fp]

/-- The list has every fingerprint that occurs and is not archived, once, with its entry from the
first source that has it, in the order of `place`, which tells any two devices apart and knows
nothing of the order of the sources. -/
theorem merge_devices_lists (input : MergeInput) :
    ((mergeDevices input).map MergedDevice.fingerprint).Nodup ∧
    (∀ fp, fp ∈ (mergeDevices input).map MergedDevice.fingerprint ↔
      input.Occurs fp ∧ ¬ input.Archived fp) ∧
    (∀ d ∈ mergeDevices input, input.firstSource d.fingerprint = some d) ∧
    ((mergeDevices input).Pairwise fun a b => a.place < b.place) ∧
    (∀ a b : MergedDevice, a.place = b.place → a.fingerprint = b.fingerprint) ∧
    (input.Distinct → ∀ locals roster trusted, input.locals.Perm locals →
      input.roster.Perm roster → input.trusted.Perm trusted →
      mergeDevices { input with locals, roster, trusted } = mergeDevices input) := by
  refine ⟨merge_devices_nodup, fun fp => ?_, fun d hmem => (mem_merge_devices.mp hmem).1,
    merge_devices_sorted, fun a b => fingerprint_of_place,
    fun hdistinct locals roster trusted => merge_devices_reordered hdistinct⟩
  rw [List.mem_map, occurs_iff]
  constructor
  · rintro ⟨d, hmem, rfl⟩
    obtain ⟨hsource, hkept⟩ := mem_merge_devices.mp hmem
    exact ⟨⟨d, hsource⟩, hkept⟩
  · rintro ⟨⟨d, hsource⟩, hkept⟩
    obtain rfl := fingerprint_of_source hsource
    exact ⟨d, mem_merge_devices.mpr ⟨hsource, hkept⟩, rfl⟩

/-- A fingerprint of a source is left out of the list exactly if it is archived. -/
theorem hidden_iff (hoccurs : input.Occurs fp) :
    fp ∉ (mergeDevices input).map MergedDevice.fingerprint ↔ input.Archived fp := by
  obtain ⟨d, hsource⟩ := occurs_iff.mp hoccurs
  obtain rfl := fingerprint_of_source hsource
  have hmem : d.fingerprint ∈ (mergeDevices input).map MergedDevice.fingerprint ↔
      d ∈ mergeDevices input := by
    refine ⟨fun h => ?_, List.mem_map_of_mem⟩
    obtain ⟨o, ho, hsame⟩ := List.mem_map.mp h
    have hfound := (mem_merge_devices.mp ho).1
    rw [hsame, hsource] at hfound
    rwa [Option.some.inj hfound]
  rw [hmem, mem_merge_devices, not_and, not_not]
  exact ⟨fun h => h hsource, fun h _ => h⟩

/-- A device that is left out is offline and its last sign is a day old, and another one has its
name, which is in the list unless it is offline and old itself. -/
theorem hidden_superseded (hoccurs : input.Occurs fp)
    (hhidden : fp ∉ (mergeDevices input).map MergedDevice.fingerprint) :
    ∃ d, input.firstSource fp = some d ∧ d.online = false ∧ input.Old fp ∧
      ∃ other o, other ≠ fp ∧ input.firstSource other = some o ∧ o.name = d.name ∧
        (o ∈ mergeDevices input ∨ o.online = false ∧ input.Old other) := by
  obtain ⟨d, hsource, hoffline, hold, other, o, hne, ho, hname⟩ := (hidden_iff hoccurs).mp hhidden
  refine ⟨d, hsource, hoffline, hold, other, o, hne, ho, hname, ?_⟩
  obtain rfl := fingerprint_of_source ho
  by_cases harchived : input.Archived o.fingerprint
  · obtain ⟨o', ho', hoffline', hold', -⟩ := harchived
    obtain rfl := Option.some.inj (ho.symm.trans ho')
    exact .inr ⟨hoffline', hold'⟩
  · exact .inl (mem_merge_devices.mpr ⟨ho, harchived⟩)

section Samples

/-- Trusted devices of one name, with the seconds of their pairings, and who is connected. -/
def phones (pairings : List (String × Nat)) (connected : List String) : MergeInput where
  locals := []
  roster := []
  connected := connected
  aliases := ∅
  trusted := pairings.map fun peer => (peer.1, "phone", peer.2)
  now := 0
  later := 0
  nowUnix := 200000

/-- A phone that is paired since long, and one of its name in the roster. -/
def rosterPhone : MergeInput :=
  { phones [("old", 1)] [] with
    roster := [{ fingerprint := 1, name := "phone"
                 leaseAddr := { ip := .v4 10 0 0 1, port := 5000 }, relayedEphemeral := false }] }

end Samples

theorem hidden_superseded_sample :
    (phones [("old", 1), ("new", 199000)] []).Old "old" := by
  obtain ⟨d, -, -, hold, -⟩ :=
    @hidden_superseded (phones [("old", 1), ("new", 199000)] []) "old"
      (.inr (.inr ⟨("old", "phone", 1), by simp [phones], rfl⟩)) (by decide +kernel)
  exact hold

/-- A device with a session can be left out, and so can every device of a name; and the other device
of the name need not be paired. -/
theorem hidden_not_superseded :
    (¬ ∀ (input : MergeInput) (fp : String), input.Occurs fp →
      fp ∉ (mergeDevices input).map MergedDevice.fingerprint → fp ∉ input.connected) ∧
    (¬ ∀ (input : MergeInput) (fp : String) (d : MergedDevice), input.firstSource fp = some d →
      fp ∉ (mergeDevices input).map MergedDevice.fingerprint →
      ∃ o ∈ mergeDevices input, o.fingerprint ≠ fp ∧ o.name = d.name) ∧
    ¬ ∀ (input : MergeInput) (fp : String), input.Occurs fp →
      fp ∉ (mergeDevices input).map MergedDevice.fingerprint →
      ∃ peer ∈ input.trusted, peer.1 ≠ fp ∧
        peer.1 ∈ (mergeDevices input).map MergedDevice.fingerprint := by
  refine ⟨fun hclaim => ?_, fun hclaim => ?_, fun hclaim => ?_⟩
  · refine hclaim (phones [("old", 1), ("new", 199000)] ["old"]) "old"
      (.inr (.inr ⟨("old", "phone", 1), by simp [phones], rfl⟩)) (by decide +kernel) ?_
    simp [phones]
  · obtain ⟨o, hmem, -⟩ := hclaim (phones [("old", 1), ("new", 2)] []) "old"
      { fingerprint := "old", name := "phone", addr := "", online := false, connected := false
        viaRelay := false } (by decide +kernel) (by decide +kernel)
    have hempty : mergeDevices (phones [("old", 1), ("new", 2)] []) = [] := by decide +kernel
    rw [hempty] at hmem
    cases hmem
  · obtain ⟨peer, hmem, hne, -⟩ := hclaim rosterPhone "old"
      (.inr (.inr ⟨("old", "phone", 1), by simp [rosterPhone, phones], rfl⟩)) (by decide +kernel)
    simp [rosterPhone, phones] at hmem
    exact hne (by rw [hmem])

end Lists

end LocalTrans.Discovery
