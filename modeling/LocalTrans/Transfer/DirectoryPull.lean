import LocalTrans.Foundation.Paging
import LocalTrans.Transfer.Receive
import LocalTrans.Transfer.RemoteListing
import Mathlib.Logic.Function.Iterate

/-!
# Downloading a remote directory

`start_pull_dir` on top of `list_remote_dir_recursive`. A peer that serves a directory tree is asked
for it in breadth-first order: `listing_walk` says that the listing is the files of the first 33
levels, cut off after 10000. The files are then fetched one after the other, and a path that
`sanitize_rel_parent` refuses ends the download where it stands. `pull_complete_iff` says for which
trees a download is complete, however its files fare. How `start_pull_parts` ends for a file is a
parameter; `pull_listed_attempts` reads it off the file system.
-/

namespace LocalTrans

open Foundation

/-- A remote directory tree: the visible entries of each directory. -/
abbrev RemoteTree := String → List FileEntry

section Listing

/-- The peer's answer to the outstanding request. -/
def serve (remote : RemoteTree) (limit : Nat) : Enumeration → ListReply
  | .asking dirRel _ cursor _ _ =>
    .page (pageOf (remote dirRel) cursor limit).1 (pageOf (remote dirRel) cursor limit).2
  | _ => .silent

/-- The listing takes one answer. -/
def walk (remote : RemoteTree) (limit : Nat) (s : Enumeration) : Enumeration :=
  match s.step (serve remote limit s) with
  | some (next, _) => next
  | none => s

/-- The files among the entries of a directory. -/
def pageFiles (dirRel : String) (entries : List FileEntry) : List (String × Nat) :=
  (entries.filter fun entry => !entry.isDir).map fun entry =>
    (childPath dirRel entry.name, entry.size)

/-- The directories among the entries of a directory. -/
def pageDirs (dirRel : String) (entries : List FileEntry) : List String :=
  (entries.filter FileEntry.isDir).map fun entry => childPath dirRel entry.name

/-- The files of some directories. -/
def filesOf (remote : RemoteTree) (dirs : List String) : List (String × Nat) :=
  dirs.flatMap fun dirRel => pageFiles dirRel (remote dirRel)

/-- The directories below some directories. -/
def dirsOf (remote : RemoteTree) (dirs : List String) : List String :=
  dirs.flatMap fun dirRel => pageDirs dirRel (remote dirRel)

/-- The files of some directories and of so many levels below them, level by level. -/
def levelFiles (remote : RemoteTree) : Nat → List String → List (String × Nat)
  | 0, dirs => filesOf remote dirs
  | levels + 1, dirs => filesOf remote dirs ++ levelFiles remote levels (dirsOf remote dirs)

/-- The files of so many levels. -/
def below (remote : RemoteTree) : Nat → List String → List (String × Nat)
  | 0, _ => []
  | levels + 1, dirs => levelFiles remote levels dirs

/-- The directories at a depth and those one level deeper, as they wait. -/
def waiting (depth : Nat) (rest next : List String) : DirQueue :=
  rest.map (·, depth) ++ next.map (·, depth + 1)

variable {remote : RemoteTree} {limit depth cursor levels : Nat} {dirRel : String}
  {entries more : List FileEntry} {queue : DirQueue} {files : List (String × Nat)}
  {dirs rest next : List String} {s s' : Enumeration}

theorem level_files_eq (remote : RemoteTree) (levels : Nat) (dirs : List String) :
    levelFiles remote levels dirs = filesOf remote dirs ++ below remote levels (dirsOf remote dirs) := by
  cases levels with
  | zero => exact (List.append_nil _).symm
  | succ levels => rfl

theorem page_files_append : pageFiles dirRel (entries ++ more) =
    pageFiles dirRel entries ++ pageFiles dirRel more := by
  rw [pageFiles, List.filter_append, List.map_append]
  rfl

theorem page_dirs_append : pageDirs dirRel (entries ++ more) =
    pageDirs dirRel entries ++ pageDirs dirRel more := by
  rw [pageDirs, List.filter_append, List.map_append]
  rfl

/-- A page that leaves room for more files. -/
theorem read_page_open (hroom : (files ++ pageFiles dirRel entries).length < maxFiles) :
    Enumeration.readPage dirRel depth entries queue files =
      (queue ++ (pageDirs dirRel entries).map (·, depth + 1),
        files ++ pageFiles dirRel entries, false) := by
  induction entries generalizing queue files with
  | nil => simp [Enumeration.readPage, pageFiles, pageDirs]
  | cons entry rest ih =>
    rw [Enumeration.readPage]
    by_cases hdir : entry.isDir = true
    · have hfiles : pageFiles dirRel (entry :: rest) = pageFiles dirRel rest := by
        simp [pageFiles, hdir]
      have hdirs : pageDirs dirRel (entry :: rest) =
          childPath dirRel entry.name :: pageDirs dirRel rest := by
        simp [pageDirs, hdir]
      rw [hfiles] at hroom ⊢
      have hopen : ¬ maxFiles ≤ files.length := by
        rw [List.length_append] at hroom
        omega
      rw [if_pos hdir, if_pos hdir, if_neg hopen, ih hroom, hdirs, List.map_cons,
        List.append_assoc, List.singleton_append]
    · have hfiles : pageFiles dirRel (entry :: rest) =
          (childPath dirRel entry.name, entry.size) :: pageFiles dirRel rest := by
        simp [pageFiles, hdir]
      have hdirs : pageDirs dirRel (entry :: rest) = pageDirs dirRel rest := by
        simp [pageDirs, hdir]
      have hsplit : files ++ pageFiles dirRel (entry :: rest) =
          (files ++ [(childPath dirRel entry.name, entry.size)]) ++ pageFiles dirRel rest := by
        rw [hfiles, List.append_assoc, List.singleton_append]
      rw [hsplit] at hroom ⊢
      have hopen : ¬ maxFiles ≤ (files ++ [(childPath dirRel entry.name, entry.size)]).length := by
        rw [List.length_append] at hroom
        omega
      rw [if_neg hdir, if_neg hdir, if_neg hopen, ih hroom, hdirs]

/-- A page that fills the files up: what is beyond the limit is cut off. -/
theorem read_page_cut (dirRel : String) (depth : Nat) (queue : DirQueue)
    (hfiles : files.length < maxFiles)
    (hfull : maxFiles ≤ (files ++ pageFiles dirRel entries).length) :
    ∃ queue', Enumeration.readPage dirRel depth entries queue files =
      (queue', (files ++ pageFiles dirRel entries).take maxFiles, true) := by
  induction entries generalizing queue files with
  | nil =>
    have hempty : (files ++ pageFiles dirRel []).length = files.length := by simp [pageFiles]
    omega
  | cons entry rest ih =>
    rw [Enumeration.readPage]
    by_cases hdir : entry.isDir = true
    · have hsame : pageFiles dirRel (entry :: rest) = pageFiles dirRel rest := by
        simp [pageFiles, hdir]
      rw [hsame] at hfull ⊢
      rw [if_pos hdir, if_pos hdir, if_neg (by omega)]
      exact ih _ hfiles hfull
    · have hmore : pageFiles dirRel (entry :: rest) =
          (childPath dirRel entry.name, entry.size) :: pageFiles dirRel rest := by
        simp [pageFiles, hdir]
      have hsplit : files ++ pageFiles dirRel (entry :: rest) =
          (files ++ [(childPath dirRel entry.name, entry.size)]) ++ pageFiles dirRel rest := by
        rw [hmore, List.append_assoc, List.singleton_append]
      rw [hsplit] at hfull ⊢
      have hlength : (files ++ [(childPath dirRel entry.name, entry.size)]).length =
          files.length + 1 := by simp
      rw [if_neg hdir, if_neg hdir]
      by_cases hlast : maxFiles ≤ (files ++ [(childPath dirRel entry.name, entry.size)]).length
      · rw [if_pos hlast, List.take_left' (by omega)]
        exact ⟨_, rfl⟩
      · rw [if_neg hlast]
        exact ih _ (by omega) hfull

/-- The listing has come from one state to another with the peer's answers. -/
def Walks (remote : RemoteTree) (limit : Nat) (s next : Enumeration) : Prop :=
  ∃ steps, (walk remote limit)^[steps] s = next

theorem Walks.refl (s : Enumeration) : Walks remote limit s s := ⟨0, rfl⟩

theorem Walks.trans {first second third : Enumeration} (h : Walks remote limit first second)
    (h' : Walks remote limit second third) : Walks remote limit first third := by
  obtain ⟨steps, rfl⟩ := h
  obtain ⟨more, rfl⟩ := h'
  exact ⟨more + steps, Function.iterate_add_apply _ _ _ _⟩

theorem Walks.head (h : Walks remote limit (walk remote limit s) s') : Walks remote limit s s' := by
  obtain ⟨steps, rfl⟩ := h
  exact ⟨steps + 1, rfl⟩

theorem Walks.once (h : walk remote limit s = s') : Walks remote limit s s' :=
  .head (h ▸ .refl _)

/-- A directory is read page by page: the listing goes on with the queue, or is cut off. -/
theorem directory_walk (cursor : Nat) (queue : DirQueue) (hlimit : 1 ≤ limit)
    (hfiles : files.length < maxFiles) :
    Walks remote limit (.asking dirRel depth cursor queue files)
      (if (files ++ pageFiles dirRel ((remote dirRel).drop cursor)).length < maxFiles then
        .resume (queue ++ (pageDirs dirRel ((remote dirRel).drop cursor)).map (·, depth + 1))
          (files ++ pageFiles dirRel ((remote dirRel).drop cursor))
      else .listed ((files ++ pageFiles dirRel ((remote dirRel).drop cursor)).take maxFiles)) := by
  -- every page but the last leaves fewer entries
  induction hleft : (remote dirRel).length - cursor using Nat.strongRecOn
    generalizing cursor queue files with
  | ind left ih =>
    by_cases hlast : (remote dirRel).length ≤ cursor + limit
    · have hpage : serve remote limit (.asking dirRel depth cursor queue files) =
          .page ((remote dirRel).drop cursor) none := by
        rw [serve, page_of_last hlast]
      refine .once ?_
      split
      · next hroom =>
        simp only [walk, hpage, Enumeration.step, read_page_open hroom]
        rfl
      · next hfull =>
        obtain ⟨queue', hread⟩ :=
          read_page_cut dirRel depth queue hfiles (Nat.le_of_not_lt hfull)
        simp only [walk, hpage, Enumeration.step, hread]
        rfl
    · have hmore : cursor + limit < (remote dirRel).length := Nat.lt_of_not_le hlast
      have hpage : serve remote limit (.asking dirRel depth cursor queue files) =
          .page (((remote dirRel).drop cursor).take limit) (some (cursor + limit)) := by
        rw [serve, page_of_more hmore]
      have hsplit := take_append_drop_add (remote dirRel) cursor limit
      have hall : pageFiles dirRel ((remote dirRel).drop cursor) =
          pageFiles dirRel (((remote dirRel).drop cursor).take limit) ++
            pageFiles dirRel ((remote dirRel).drop (cursor + limit)) := by
        rw [← page_files_append, hsplit]
      have hdirs : pageDirs dirRel ((remote dirRel).drop cursor) =
          pageDirs dirRel (((remote dirRel).drop cursor).take limit) ++
            pageDirs dirRel ((remote dirRel).drop (cursor + limit)) := by
        rw [← page_dirs_append, hsplit]
      by_cases hroom : (files ++ pageFiles dirRel
          (((remote dirRel).drop cursor).take limit)).length < maxFiles
      · have hnext : walk remote limit (.asking dirRel depth cursor queue files) =
            .asking dirRel depth (cursor + limit)
              (queue ++ (pageDirs dirRel (((remote dirRel).drop cursor).take limit)).map
                (·, depth + 1))
              (files ++ pageFiles dirRel (((remote dirRel).drop cursor).take limit)) := by
          simp only [walk, hpage, Enumeration.step, read_page_open hroom]
          rfl
        have hrest := ih ((remote dirRel).length - (cursor + limit)) (by omega)
          (cursor + limit)
          (queue ++ (pageDirs dirRel (((remote dirRel).drop cursor).take limit)).map
            (·, depth + 1)) hroom rfl
        rw [List.append_assoc, ← hall, List.append_assoc, ← List.map_append, ← hdirs] at hrest
        exact .head (hnext ▸ hrest)
      · have hfull := Nat.le_of_not_lt hroom
        obtain ⟨queue', hread⟩ := read_page_cut dirRel depth queue hfiles hfull
        refine .once ?_
        have hlong : ¬ (files ++ pageFiles dirRel ((remote dirRel).drop cursor)).length <
            maxFiles := by
          rw [hall, ← List.append_assoc, List.length_append]
          omega
        rw [if_neg hlong, hall, ← List.append_assoc, List.take_append_of_le_length hfull]
        simp only [walk, hpage, Enumeration.step, hread]
        rfl

/-- What waits when a directory of the present depth is next. -/
theorem resume_next (hdepth : depth ≤ maxDepth) :
    Enumeration.resume (waiting depth (dirRel :: rest) next) files =
      .asking dirRel depth 0 (waiting depth rest next) files :=
  if_neg (Nat.not_lt.mpr hdepth)

/-- The directories below the deepest level are passed over. -/
theorem resume_deep (hdepth : maxDepth ≤ depth) :
    Enumeration.resume (waiting depth [] next) files = .listed files := by
  unfold waiting
  induction next with
  | nil => rfl
  | cons dirRel next ih => exact (if_pos (Nat.lt_succ_of_le hdepth)).trans ih

/-- The listing goes through the directories of a level, and on with the levels below. -/
theorem rest_walk (hlimit : 1 ≤ limit) (hdepth : depth ≤ maxDepth)
    (hempty : ∀ next files, files.length < maxFiles →
      Walks remote limit (.resume (waiting depth [] next) files)
        (.listed ((files ++ below remote levels next).take maxFiles))) :
    ∀ rest next files, files.length < maxFiles →
      Walks remote limit (.resume (waiting depth rest next) files)
        (.listed ((files ++ filesOf remote rest ++
          below remote levels (next ++ dirsOf remote rest)).take maxFiles)) := by
  intro rest
  induction rest with
  | nil =>
    intro next files hfiles
    rw [filesOf, dirsOf, List.flatMap_nil, List.flatMap_nil, List.append_nil, List.append_nil]
    exact hempty next files hfiles
  | cons dirRel rest ih =>
    intro next files hfiles
    rw [resume_next hdepth]
    refine (directory_walk 0 _ hlimit hfiles).trans ?_
    rw [List.drop_zero]
    split
    · next hroom =>
      have hrest := ih (next ++ pageDirs dirRel (remote dirRel)) _ hroom
      have hqueue : waiting depth rest (next ++ pageDirs dirRel (remote dirRel)) =
          waiting depth rest next ++ (pageDirs dirRel (remote dirRel)).map (·, depth + 1) := by
        simp [waiting]
      rw [hqueue] at hrest
      simpa [filesOf, dirsOf] using hrest
    · next hfull =>
      have hsplit : files ++ filesOf remote (dirRel :: rest) ++
          below remote levels (next ++ dirsOf remote (dirRel :: rest)) =
            (files ++ pageFiles dirRel (remote dirRel)) ++ (filesOf remote rest ++
              below remote levels (next ++ dirsOf remote (dirRel :: rest))) := by
        simp [filesOf]
      rw [hsplit, List.take_append_of_le_length (Nat.le_of_not_lt hfull)]
      exact .refl _

/-- The listing goes through all the levels. -/
theorem level_walk (remote : RemoteTree) (hlimit : 1 ≤ limit) : ∀ levels depth, depth + levels = maxDepth →
    ∀ rest next files, files.length < maxFiles →
      Walks remote limit (.resume (waiting depth rest next) files)
        (.listed ((files ++ filesOf remote rest ++
          below remote levels (next ++ dirsOf remote rest)).take maxFiles)) := by
  intro levels
  induction levels with
  | zero =>
    intro depth hdepth
    refine rest_walk hlimit (by omega) fun next files hfiles => ?_
    rw [resume_deep (by omega), below, List.append_nil,
      List.take_of_length_le (Nat.le_of_lt hfiles)]
    exact .refl _
  | succ levels ih =>
    intro depth hdepth
    refine rest_walk hlimit (by omega) fun next files hfiles => ?_
    have hnext := ih (depth + 1) (by omega) next [] files hfiles
    have hqueue : waiting (depth + 1) next [] = waiting depth [] next := by simp [waiting]
    rw [hqueue, List.nil_append, List.append_assoc, ← level_files_eq] at hnext
    exact hnext

/-- The files of the tree that are listed: those of the first levels, cut off. -/
def listedFiles (remote : RemoteTree) (root : String) : List (String × Nat) :=
  (levelFiles remote maxDepth [root]).take maxFiles

/-- A tree is listed to the end, whatever the size of the pages. -/
theorem listing_walk (remote : RemoteTree) (hlimit : 1 ≤ limit) (rootRel : String) :
    Walks remote limit (.start rootRel) (.listed (listedFiles remote (trimSlashes rootRel))) := by
  have h := level_walk remote hlimit maxDepth 0 (Nat.zero_add _)
    [trimSlashes rootRel] [] [] (by decide)
  rw [List.nil_append, List.nil_append, ← level_files_eq] at h
  exact h

/-- What a listing returned stands. -/
theorem listed_final (h : Walks remote limit (.listed files) s) : s = .listed files := by
  obtain ⟨steps, rfl⟩ := h
  induction steps with
  | zero => rfl
  | succ steps ih => exact ih

/-- The listing of a tree is the only one. -/
theorem listing_unique (hlimit : 1 ≤ limit) {rootRel : String}
    (h : Walks remote limit (.start rootRel) (.listed files)) :
    files = listedFiles remote (trimSlashes rootRel) := by
  obtain ⟨steps, hsteps⟩ := h
  obtain ⟨more, hmore⟩ := listing_walk remote hlimit rootRel
  rcases Nat.le_total steps more with hle | hle
  · have hrest : Walks remote limit (.listed files) (.listed (listedFiles remote _)) :=
      ⟨more - steps, by
        rw [← hsteps, ← Function.iterate_add_apply, Nat.sub_add_cancel hle, hmore]⟩
    exact (Enumeration.listed.inj (listed_final hrest)).symm
  · have hrest : Walks remote limit (.listed (listedFiles remote _)) (.listed files) :=
      ⟨steps - more, by
        rw [← hmore, ← Function.iterate_add_apply, Nat.sub_add_cancel hle, hsteps]⟩
    exact Enumeration.listed.inj (listed_final hrest)

end Listing

section Pulling

/-- `DirPullEvent`. -/
inductive DirPullEvent where
  | enumerated (fileCount totalBytes : Nat)
  | fileDone (relPath : String) (bytes : Nat)
  | fileFailed (relPath reason : String)
  | allDone (succeeded : Nat) (failed : List String)
deriving DecidableEq

/-- A download of a directory: the events, the files that were tried with the place of those that
came, and what it returns. -/
structure PullRun where
  events : List DirPullEvent
  attempts : List (String × Option Location)
  result : Except EngineError (Nat × List String)

/-- A file that was tried, in front of what follows. -/
def PullRun.after (ev : DirPullEvent) (attempt : String × Option Location) (run : PullRun) : PullRun :=
  { run with events := ev :: run.events, attempts := attempt :: run.attempts }

@[simp] theorem PullRun.after_events {ev attempt} {run : PullRun} :
    (run.after ev attempt).events = ev :: run.events := rfl

@[simp] theorem PullRun.after_attempts {ev attempt} {run : PullRun} :
    (run.after ev attempt).attempts = attempt :: run.attempts := rfl

@[simp] theorem PullRun.after_result {ev attempt} {run : PullRun} :
    (run.after ev attempt).result = run.result := rfl

/-- How one `start_pull_parts` after the other ends. -/
abbrev Outcomes := Nat → Except EngineError Location

/-- The loop of `start_pull_dir`. -/
def pullFiles (style : PathStyle) : Outcomes → List (String × Nat) → Nat → List String → PullRun
  | _, [], succeeded, failed =>
    { events := [.allDone succeeded failed], attempts := [], result := .ok (succeeded, failed) }
  | outcomes, (rel, size) :: rest, succeeded, failed =>
    match sanitizeRelParent style rel with
    | .error error => { events := [], attempts := [], result := .error error }
    | .ok _ =>
      match outcomes 0 with
      | .ok place =>
        (pullFiles style (fun i => outcomes (i + 1)) rest (succeeded + 1) failed).after
          (.fileDone rel size) (rel, some place)
      | .error error =>
        (pullFiles style (fun i => outcomes (i + 1)) rest succeeded (failed ++ [rel])).after
          (.fileFailed rel error.text) (rel, none)

/-- `start_pull_dir`, once the listing has returned. The sum of the sizes is one of `u64`. -/
def pullDir (style : PathStyle) (outcomes : Outcomes) : Enumeration → Option PullRun
  | .asking _ _ _ _ _ => none
  | .failed error => some { events := [], attempts := [], result := .error error }
  | .listed files =>
    if files = [] then
      some { events := [], attempts := [], result := .error (.protocol "目录为空或不存在") }
    else
      let run := pullFiles style outcomes files 0 []
      let totalBytes := (files.map Prod.snd).sum % 2 ^ 64
      some { run with events := .enumerated files.length totalBytes :: run.events }

/-- A directory of the tree, at any depth. -/
inductive Beneath (remote : RemoteTree) (root : String) : String → Prop where
  | root : Beneath remote root root
  | sub {dirRel entry} : Beneath remote root dirRel → entry ∈ remote dirRel →
      entry.isDir = true → Beneath remote root (childPath dirRel entry.name)

/-- A file of the tree, at any depth. -/
def VisibleFile (remote : RemoteTree) (root rel : String) : Prop :=
  ∃ dirRel, Beneath remote root dirRel ∧ ∃ entry ∈ remote dirRel, entry.isDir = false ∧
    childPath dirRel entry.name = rel

/-- Every listed file is tried once, in the order of the listing, the result and the last event count
all of them, the bytes are added up without overflow, and when none has failed, every file of the
tree was placed. -/
structure CompletePull (remote : RemoteTree) (root : String) (files : List (String × Nat))
    (run : PullRun) : Prop where
  each : run.attempts.map Prod.fst = files.map Prod.fst
  bytes : .enumerated files.length (files.map Prod.snd).sum ∈ run.events
  counted : ∃ succeeded failed, run.result = .ok (succeeded, failed) ∧
    succeeded + failed.length = files.length ∧
      run.events.getLast? = some (.allDone succeeded failed) ∧
        (failed = [] → ∀ rel, VisibleFile remote root rel →
          ∃ place, (rel, some place) ∈ run.attempts)

/-- A tree that has a file, and whose files are all among those that are listed; the paths to these
are accepted, and their sizes fit a `u64`. -/
structure Pullable (style : PathStyle) (remote : RemoteTree) (root : String) : Prop where
  some : listedFiles remote root ≠ []
  all : ∀ rel, VisibleFile remote root rel → rel ∈ (listedFiles remote root).map Prod.fst
  accepted : ∀ file ∈ listedFiles remote root, ∃ parent,
    sanitizeRelParent style file.1 = .ok parent
  fits : ((listedFiles remote root).map Prod.snd).sum < 2 ^ 64

variable {style : PathStyle} {remote : RemoteTree} {limit succeeded : Nat} {root rootRel : String}
  {files : List (String × Nat)} {failed : List String} {outcomes : Outcomes} {run : PullRun}

/-- With paths that are accepted, the loop tries every file and counts it. -/
theorem pull_files_accepted (outcomes : Outcomes) (succeeded : Nat) (failed : List String)
    (haccepted : ∀ file ∈ files, ∃ parent, sanitizeRelParent style file.1 = .ok parent) :
    let run := pullFiles style outcomes files succeeded failed
    run.attempts.map Prod.fst = files.map Prod.fst ∧
      ∃ came lost, run.result = .ok (succeeded + came, failed ++ lost) ∧
        came + lost.length = files.length ∧
          run.events.getLast? = some (.allDone (succeeded + came) (failed ++ lost)) ∧
            (lost = [] → ∀ file ∈ files, ∃ place, (file.1, some place) ∈ run.attempts) := by
  induction files generalizing outcomes succeeded failed with
  | nil =>
    refine ⟨rfl, 0, [], ?_, rfl, ?_, nofun⟩
    · simp [pullFiles]
    · simp [pullFiles]
  | cons file rest ih =>
    obtain ⟨rel, size⟩ := file
    obtain ⟨parent, hparent⟩ := haccepted (rel, size) List.mem_cons_self
    have hrest : ∀ file ∈ rest, ∃ parent, sanitizeRelParent style file.1 = .ok parent :=
      fun file hmem => haccepted file (List.mem_cons_of_mem _ hmem)
    unfold pullFiles
    rw [hparent]
    dsimp only
    cases outcomes 0 with
    | ok place =>
      obtain ⟨heach, came, lost, hresult, hcount, hlast, hplaced⟩ :=
        ih (fun i => outcomes (i + 1)) (succeeded + 1) failed hrest
      refine ⟨?_, came + 1, lost, ?_, ?_, ?_, ?_⟩
      · simpa using heach
      · rw [PullRun.after_result, hresult]
        simp only [Nat.add_assoc, Nat.add_comm 1]
      · rw [List.length_cons, ← hcount]
        omega
      · rw [PullRun.after_events, List.getLast?_cons, hlast]
        simp only [Nat.add_assoc, Nat.add_comm 1, Option.getD_some]
      · intro hnone file hmem
        rcases List.mem_cons.mp hmem with rfl | hmem
        · exact ⟨place, List.mem_cons_self⟩
        · obtain ⟨place', hplace'⟩ := hplaced hnone file hmem
          exact ⟨place', List.mem_cons_of_mem _ hplace'⟩
    | error error =>
      obtain ⟨heach, came, lost, hresult, hcount, hlast, -⟩ :=
        ih (fun i => outcomes (i + 1)) succeeded (failed ++ [rel]) hrest
      refine ⟨?_, came, rel :: lost, ?_, ?_, ?_, nofun⟩
      · simpa using heach
      · rw [PullRun.after_result, hresult, List.append_assoc, List.singleton_append]
      · rw [List.length_cons, List.length_cons, ← hcount]
        omega
      · rw [PullRun.after_events, List.getLast?_cons, hlast, List.append_assoc,
          List.singleton_append]
        rfl

/-- A loop that returns a count has accepted every path. -/
theorem accepted_of_pull_files {count : Nat × List String}
    (h : (pullFiles style outcomes files succeeded failed).result = .ok count) :
    ∀ file ∈ files, ∃ parent, sanitizeRelParent style file.1 = .ok parent := by
  induction files generalizing outcomes succeeded failed with
  | nil => nofun
  | cons file rest ih =>
    obtain ⟨rel, size⟩ := file
    unfold pullFiles at h
    cases hparent : sanitizeRelParent style rel with
    | error error =>
      rw [hparent] at h
      cases h
    | ok parent =>
      rw [hparent] at h
      have hrest : ∀ file ∈ rest, ∃ parent, sanitizeRelParent style file.1 = .ok parent := by
        cases hfirst : outcomes 0 with
        | ok place =>
          rw [hfirst] at h
          exact ih h
        | error error =>
          rw [hfirst] at h
          exact ih h
      intro file hmem
      rcases List.mem_cons.mp hmem with rfl | hmem
      · exact ⟨parent, hparent⟩
      · exact hrest file hmem

/-- When every file comes, none is counted as failed. -/
theorem pull_files_come (succeeded : Nat) (failed : List String) (hcome : ∀ i, ∃ place, outcomes i = .ok place)
    (haccepted : ∀ file ∈ files, ∃ parent, sanitizeRelParent style file.1 = .ok parent) :
    (pullFiles style outcomes files succeeded failed).result =
      .ok (succeeded + files.length, failed) := by
  induction files generalizing outcomes succeeded with
  | nil => rfl
  | cons file rest ih =>
    obtain ⟨rel, size⟩ := file
    obtain ⟨parent, hparent⟩ := haccepted (rel, size) List.mem_cons_self
    obtain ⟨place, hplace⟩ := hcome 0
    unfold pullFiles
    rw [hparent, hplace]
    have hrest := ih (succeeded + 1) (fun i => hcome (i + 1)) fun file hmem => haccepted file (List.mem_cons_of_mem _ hmem)
    show (pullFiles style (fun i => outcomes (i + 1)) rest (succeeded + 1) failed).result = _
    rw [hrest, List.length_cons, Nat.add_assoc, Nat.add_comm 1]

/-- Only the listing as a whole is announced with its bytes. -/
theorem enumerated_not_mem {files' bytes : Nat} :
    DirPullEvent.enumerated files' bytes ∉ (pullFiles style outcomes files succeeded failed).events := by
  induction files generalizing outcomes succeeded failed with
  | nil => simp [pullFiles]
  | cons file rest ih =>
    obtain ⟨rel, size⟩ := file
    unfold pullFiles
    split
    · exact List.not_mem_nil
    · split
      · simpa using ih
      · simpa using ih

/-- A complete download of a tree, when every file comes, needs all that makes a tree pullable. -/
theorem pullable_of_complete {place : Location}
    (hrun : pullDir style (fun _ => .ok place) (.listed (listedFiles remote root)) = some run)
    (h : CompletePull remote root (listedFiles remote root) run) : Pullable style remote root := by
  obtain ⟨succeeded, failed, hresult, -, -, hplaced⟩ := h.counted
  rw [pullDir] at hrun
  split at hrun
  · obtain rfl := Option.some.inj hrun
    cases hresult
  · next hsome =>
    obtain rfl := Option.some.inj hrun
    dsimp only at hresult hplaced
    have haccepted := accepted_of_pull_files hresult
    have hcome := pull_files_come 0 [] (fun _ => ⟨place, rfl⟩) haccepted
    rw [hcome] at hresult
    obtain ⟨-, rfl⟩ := Prod.mk.inj (Except.ok.inj hresult)
    refine ⟨hsome, fun rel hvisible => ?_, haccepted, ?_⟩
    · obtain ⟨place', hmem⟩ := hplaced rfl rel hvisible
      rw [← h.each]
      exact List.mem_map.mpr ⟨_, hmem, rfl⟩
    · rcases List.mem_cons.mp h.bytes with heq | hmem
      · have hsum := (DirPullEvent.enumerated.inj heq).2
        rw [hsum]
        exact Nat.mod_lt _ (by decide)
      · exact absurd hmem enumerated_not_mem

/-- A tree that is pullable is downloaded completely. -/
theorem complete_of_pullable (h : Pullable style remote root) (outcomes : Outcomes) :
    ∃ run, pullDir style outcomes (.listed (listedFiles remote root)) = some run ∧
      CompletePull remote root (listedFiles remote root) run := by
  obtain ⟨heach, came, lost, hresult, hcount, hlast, hplaced⟩ :=
    pull_files_accepted outcomes 0 [] h.accepted
  rw [Nat.zero_add, List.nil_append] at hresult hlast
  refine ⟨_, if_neg h.some, heach, ?_, came, lost, hresult, hcount, ?_, ?_⟩
  · rw [Nat.mod_eq_of_lt h.fits]
    exact List.mem_cons_self
  · rw [List.getLast?_cons, hlast]
    rfl
  · intro hnone rel hvisible
    obtain ⟨file, hmem, rfl⟩ := List.mem_map.mp (h.all rel hvisible)
    exact hplaced hnone file hmem

/-- A download of a tree is complete, however its files fare, if and only if the tree is pullable. -/
theorem pull_complete_iff (style : PathStyle) (remote : RemoteTree) (rootRel : String)
    (hlimit : 1 ≤ limit) :
    (∀ outcomes, ∃ files run, Walks remote limit (.start rootRel) (.listed files) ∧
      pullDir style outcomes (.listed files) = some run ∧
        CompletePull remote (trimSlashes rootRel) files run) ↔
      Pullable style remote (trimSlashes rootRel) := by
  constructor
  · intro h
    obtain ⟨files, run, hwalks, hrun, hcomplete⟩ :=
      h fun _ => .ok { volume := "", names := [] }
    obtain rfl := listing_unique hlimit hwalks
    exact pullable_of_complete hrun hcomplete
  · intro h outcomes
    obtain ⟨run, hrun, hcomplete⟩ := complete_of_pullable h outcomes
    exact ⟨_, run, listing_walk remote hlimit rootRel, hrun, hcomplete⟩

/-- A directory `d` with a file `z`, and with a file `x` in a directory of a given name. -/
def sampleRemote (name : String) : RemoteTree := fun dirRel =>
  if dirRel = "d" then
    [{ name, isDir := true, size := 0, mtime := 0 }, { name := "z", isDir := false, size := 7, mtime := 0 }]
  else if dirRel = "d/" ++ name then [{ name := "x", isDir := false, size := 5, mtime := 0 }]
  else []

theorem pull_complete_sample :
    (∀ outcomes, ∃ files run, Walks (sampleRemote "s") 200 (.start "d") (.listed files) ∧
      pullDir .unix outcomes (.listed files) = some run ∧
        CompletePull (sampleRemote "s") (trimSlashes "d") files run) ↔
      Pullable .unix (sampleRemote "s") (trimSlashes "d") :=
  pull_complete_iff .unix (sampleRemote "s") "d" (by decide)

/-- A directory with a colon in its name, as Unix permits, ends the download without a last event. -/
theorem colon_ends_download :
    ¬ ∀ style remote rootRel limit, 1 ≤ limit → ∀ outcomes, ∃ files run,
      Walks remote limit (.start rootRel) (.listed files) ∧
        pullDir style outcomes (.listed files) = some run ∧
          CompletePull remote (trimSlashes rootRel) files run := by
  intro hall
  obtain ⟨files, run, hwalks, hrun, hcomplete⟩ :=
    hall .unix (sampleRemote "a:b") "d" 200 (by decide) fun _ => .ok { volume := "", names := [] }
  obtain rfl := listing_unique (by decide) hwalks
  have hfiles : listedFiles (sampleRemote "a:b") (trimSlashes "d") =
      [("d/z", 7), ("d/a:b/x", 5)] := by decide +kernel
  rw [hfiles] at hrun
  obtain ⟨succeeded, failed, hresult, -⟩ := hcomplete.counted
  obtain rfl := Option.some.inj hrun
  have haccepted := accepted_of_pull_files hresult
  obtain ⟨parent, hparent⟩ := haccepted ("d/a:b/x", 5) (by decide)
  have hrefused : sanitizeRelParent .unix "d/a:b/x" =
      .error (.protocol "非法相对路径: d/a:b/x") := by decide +kernel
  rw [hrefused] at hparent
  cases hparent

/-- The download on the file system goes as the loop does, with the outcomes it meets. -/
theorem pull_listed_attempts (hash : List UInt8 → String) (platform : Platform)
    (downloadDir : Location) (dirName peer shareId : String) (size : ListedFile → Nat)
    (listed : List ListedFile) : ∀ fs succeeded failed, ∃ outcomes,
      (pullFiles platform.style outcomes (listed.map fun file => (file.rel, size file)) succeeded
          failed).result =
        (pullListed hash platform downloadDir dirName peer shareId fs listed succeeded failed).2 := by
  induction listed with
  | nil => exact fun fs succeeded failed => ⟨fun _ => .error .cancelled, rfl⟩
  | cons file rest ih =>
    intro fs succeeded failed
    cases hparent : sanitizeRelParent platform.style file.rel with
    | error error =>
      refine ⟨fun _ => .error .cancelled, ?_⟩
      rw [List.map_cons, pullFiles, pullListed, hparent]
    | ok parent =>
      rcases hparts : startPullParts hash platform fs downloadDir
          (listedDir platform downloadDir dirName parent) (some peer, some shareId, some file.rel)
          file.answer file.jobs file.window file.arrivals file.outcome with ⟨next, error | placed⟩
      · obtain ⟨outcomes, hrest⟩ := ih next succeeded (failed ++ [file.rel])
        refine ⟨fun i => i.casesOn (.error error) outcomes, ?_⟩
        rw [List.map_cons, pullFiles, pullListed, hparent]
        dsimp only
        rw [hparts]
        exact hrest
      · obtain ⟨outcomes, hrest⟩ := ih next (succeeded + 1) failed
        refine ⟨fun i => i.casesOn (.ok placed.place) outcomes, ?_⟩
        rw [List.map_cons, pullFiles, pullListed, hparent]
        dsimp only
        rw [hparts]
        exact hrest

end Pulling

end LocalTrans
