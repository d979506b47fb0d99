import LocalTrans.Transfer.Completion

/-!
# Receiving an accepted offer

The receive task of `handle_offer_decision` as a machine: the stream of small files, then the small
files that are there already, then the large files one after the other, and the report to the
sender. What the sender does and how the calls to the file system go is the input of each step.
-/

namespace LocalTrans

open Foundation

/-- A small file of an offer that is there already: where it is, and where it belongs. -/
structure InstantFile where
  hash : String
  src : Location
  size : Nat
  relDir : String
  name : String
deriving DecidableEq

/-- One bit of the skip bitmap: a small file that the index has. -/
def skipBit (index : InboxIndex) (file : OfferFile) : Bool :=
  file.size ≤ smallFileLimit &&
    (file.hash.bind fun hash => index.lookup hash file.size).isSome

/-- The data of a small file that is skipped. -/
def instantOf (index : InboxIndex) (file : OfferFile) : Option InstantFile :=
  file.hash.bind fun hash => (index.lookup hash file.size).map fun src =>
    { hash, src, size := file.size, relDir := file.relDir, name := file.name }

/-- How an accepted offer is divided up: small files that are to come, small files that are there,
and large files; with the index as it was when the offer was accepted. -/
structure OfferPlan where
  small : List OfferFile
  instants : List InstantFile
  large : List OfferFile
  index : InboxIndex
deriving DecidableEq

/-- The division of an offer in `handle_offer_decision`. -/
def planOffer (index : InboxIndex) (files : List OfferFile) : OfferPlan :=
  { small := files.filter fun file => file.size ≤ smallFileLimit && !skipBit index file
    instants := (files.filter (skipBit index)).filterMap (instantOf index)
    large := files.filter fun file => smallFileLimit < file.size
    index }

/-- A file that was received: the name and the directories it was received under, and where it was
put with which contents. -/
structure Receipt where
  name : String
  dir : List String
  placed : Placed
deriving DecidableEq

/-- What the task is at: it waits for the stream of small files, reads it, places the files that
are there already, or receives the large files; or it has ended. -/
inductive InboundPhase where
  | small (plan : OfferPlan)
  | entries (plan : OfferPlan) (stream : BatchStream)
  | instants (left : List InstantFile) (index : InboxIndex) (large : List OfferFile)
  | large (left : List OfferFile)
  | ended
deriving DecidableEq

/-- The task, and the file system it works on. -/
structure Inbound where
  fs : FileSystem
  phase : InboundPhase

/-- What the next step meets: a stream that is accepted or not, the outcomes of file-system calls,
or the answer and the chunks of a large file. -/
inductive InboundInput where
  | accept (accepted : Except EngineError BatchStream)
  | entry (outcome : SmallOutcome)
  | instant (outcome : PlaceOutcome)
  | saveIndex (saved : Bool)
  | large (answer : Except EngineError MetaResp) (arrivals : List Arrival) (outcome : PartOutcome)
      (instant : InstantOutcome)
  | report

/-- A file is received, or the sender is told how the offer ended. -/
inductive InboundEvent where
  | received (receipt : Receipt)
  | jobDone
  | jobFailed (error : EngineError)
deriving DecidableEq

/-- Where an instant file belongs. -/
def InstantFile.destDir (platform : Platform) (root : Location) (item : InstantFile) : Location :=
  platform.joinAll root (sanitizeRelDir item.relDir)

/-- One instant file: a copy is placed under the name of the offer, and recorded in the index. A
failure is only logged. -/
def placeInstant (platform : Platform) (fs : FileSystem) (root : Location) (index : InboxIndex)
    (item : InstantFile) (outcome : PlaceOutcome) : FileSystem × InboxIndex × Option Receipt :=
  match placeDedupCopy platform fs item.src (item.destDir platform root) item.name outcome with
  | (fs, .error _) => (fs, index, none)
  | (fs, .ok placed) =>
    (fs, index.insert item.hash placed.place item.size,
      some { name := item.name, dir := sanitizeRelDir item.relDir, placed })

/-- The receipt of an entry of the stream of small files. -/
def SmallEntry.receipt (entry : SmallEntry) (placed : Placed) : Receipt :=
  { name := entry.name, dir := sanitizeRelDir entry.rel, placed }

/-- The name a large file is received under: that of the answer, sanitised. -/
def largeName : Except EngineError MetaResp → Option String
  | .ok answer => (sanitizeFileName answer.fileName).toOption
  | .error _ => none

namespace Inbound

/-- After the stream of small files. -/
def afterSmall (plan : OfferPlan) : InboundPhase :=
  if plan.instants.isEmpty then .large plan.large
  else .instants plan.instants plan.index plan.large

/-- The offer is accepted: the index is loaded, and the files are divided up. -/
def accept (format : IndexFormat) (fs : FileSystem) (root : Location) (files : List OfferFile) :
    Inbound :=
  let plan := planOffer ((loadIndex format fs root).pruneMissing fs.present) files
  { fs, phase := if plan.small.isEmpty then afterSmall plan else .small plan }

variable (hash : List UInt8 → String) (format : IndexFormat) (platform : Platform) (root : Location)

/-- One step of the task. -/
def step : Machine Inbound InboundInput InboundEvent
  | task, .accept accepted =>
    match task.phase with
    | .small plan =>
      match accepted with
      | .error error => some ({ task with phase := .ended }, [.jobFailed error])
      | .ok stream => some ({ task with phase := .entries plan stream }, [])
    | _ => none
  | task, .entry outcome =>
    match task.phase with
    | .entries plan stream =>
      match nextEntry stream.bytes stream.clean with
      | .ended => some ({ task with phase := afterSmall plan }, [])
      | .failed error => some ({ task with phase := .ended }, [.jobFailed error])
      | .entry entry rest =>
        match recvSmallFile hash format platform task.fs root entry outcome with
        | (fs, .error error) => some ({ fs, phase := .ended }, [.jobFailed error])
        | (fs, .ok placed) =>
          some ({ fs, phase := .entries plan { stream with bytes := rest } },
            [.received (entry.receipt placed)])
    | _ => none
  | task, .instant outcome =>
    match task.phase with
    | .instants (item :: left) index large =>
      match placeInstant platform task.fs root index item outcome with
      | (fs, index, none) => some ({ fs, phase := .instants left index large }, [])
      | (fs, index, some receipt) =>
        some ({ fs, phase := .instants left index large }, [.received receipt])
    | _ => none
  | task, .saveIndex saved =>
    match task.phase with
    | .instants [] index large =>
      -- What is saved goes back to the index that was loaded when the offer was accepted.
      some ({ fs := saveIndex format task.fs root index saved, phase := .large large }, [])
    | _ => none
  | task, .large answer arrivals outcome instant =>
    match task.phase with
    | .large (file :: left) =>
      match recvPushLargeFile hash format platform task.fs root file answer arrivals outcome
        instant with
      | (fs, .error error) => some ({ fs, phase := .ended }, [.jobFailed error])
      | (fs, .ok placed) =>
        let name := (largeName answer).getD ""
        some ({ fs, phase := .large left },
          [.received { name, dir := sanitizeRelDir file.relDir, placed }])
    | _ => none
  | task, .report =>
    match task.phase with
    | .large [] => some ({ task with phase := .ended }, [.jobDone])
    | _ => none

end Inbound

end LocalTrans
