import LocalTrans.Foundation.Execution
import LocalTrans.Transfer.Names

/-!
# Listing a remote directory

`list_remote_dir_recursive`: the directories below a first one wait in a queue, and each is asked for
page by page. `step` is what one answer does; the answers are the peer's, with any entries and any
cursors. What is asked for and how long the queue gets is the history of a run. A page without files
that announces another one, and a directory, are answers without end, so `listing_bounded_iff` says
exactly which peers are asked a bounded number of times.
-/

namespace LocalTrans

open Foundation

/-- `MAX_DEPTH`. -/
def maxDepth : Nat := 32

/-- `MAX_FILES`. -/
def maxFiles : Nat := 10000

/-- The path of an entry of a listed directory. -/
def childPath (dirRel name : String) : String :=
  if dirRel = "" then name else dirRel ++ "/" ++ name

/-- How a request for a page is answered: with a page, with another message or a closed channel, with
nothing for 15 seconds, or it could not be sent. -/
inductive ListReply where
  | page (entries : List FileEntry) (next : Option Nat)
  | closed
  | silent
  | unsent (reason : String)

/-- The directories that wait, with their depths. -/
abbrev DirQueue := List (String × Nat)

/-- Where the listing stands: it waits for a page of a directory, or has returned. -/
inductive Enumeration where
  | asking (dirRel : String) (depth cursor : Nat) (queue : DirQueue) (files : List (String × Nat))
  | listed (files : List (String × Nat))
  | failed (error : EngineError)

/-- What a listing does: it asks for a page, and has so many directories in its queue. -/
inductive ListEvent where
  | asked (dirRel : String) (cursor : Nat)
  | queued (length : Nat)
deriving DecidableEq

namespace Enumeration

/-- The loop over the entries of a page; the last part of the result says that the files are cut
off. -/
def readPage (dirRel : String) (depth : Nat) : List FileEntry → DirQueue → List (String × Nat) →
    DirQueue × List (String × Nat) × Bool
  | [], queue, files => (queue, files, false)
  | entry :: rest, queue, files =>
    let child := childPath dirRel entry.name
    let queue := if entry.isDir then queue ++ [(child, depth + 1)] else queue
    let files := if entry.isDir then files else files ++ [(child, entry.size)]
    if maxFiles ≤ files.length then (queue, files, true)
    else readPage dirRel depth rest queue files

/-- `queue.pop_front`, past the directories that are too deep. -/
def resume : DirQueue → List (String × Nat) → Enumeration
  | [], files => .listed files
  | (dirRel, depth) :: queue, files =>
    if maxDepth < depth then resume queue files else .asking dirRel depth 0 queue files

/-- The request that is outstanding. -/
def request : Enumeration → List ListEvent
  | .asking dirRel _ cursor _ _ => [.asked dirRel cursor]
  | _ => []

/-- The listing begins with a request for the first page of the root. -/
def start (rootRel : String) : Enumeration := .asking (trimSlashes rootRel) 0 0 [] []

/-- What an answer to the outstanding request does. -/
def step : Machine Enumeration ListReply ListEvent
  | .asking dirRel depth _ queue files, reply =>
    match reply with
    | .page entries next =>
      let (queue, files, cut) := readPage dirRel depth entries queue files
      let after :=
        if cut then .listed files
        else match next with
          | some cursor => .asking dirRel depth cursor queue files
          | none => resume queue files
      some (after, .queued queue.length :: after.request)
    | .closed => some (.failed (.rpc "枚举目录时响应通道关闭"), [])
    | .silent => some (.failed .timeout, [])
    | .unsent reason => some (.failed (.rpc ("发送 ListReq 失败: " ++ reason)), [])
  | _, _ => none

end Enumeration

/-- The entries of a page. -/
def ListReply.entries : ListReply → List FileEntry
  | .page entries _ => entries
  | _ => []

/-- A page without files that announces another one. -/
def ListReply.barren : ListReply → Bool
  | .page entries (some _) => entries.all FileEntry.isDir
  | _ => false

/-- How many of the entries are files. -/
def fileCount (entries : List FileEntry) : Nat := entries.countP fun entry => !entry.isDir

/-- How many directories stand among the entries, up to the file that is the last one wanted. -/
def dirsBefore : Nat → List FileEntry → Nat
  | _, [] => 0
  | wanted, entry :: rest =>
    if entry.isDir then dirsBefore wanted rest + 1
    else if wanted ≤ 1 then 0
    else dirsBefore (wanted - 1) rest

/-- The entries of a run of answers. -/
def allEntries (replies : List ListReply) : List FileEntry := replies.flatMap ListReply.entries

/-- The event is a request. -/
def ListEvent.isAsked : ListEvent → Bool
  | .asked _ _ => true
  | .queued _ => false

/-- The requests of a run: one before it, and those in its history. -/
def requestCount (trace : List ListEvent) : Nat := trace.countP ListEvent.isAsked + 1

section Pages

variable {dirRel : String} {depth cursor wanted bound : Nat} {queue : DirQueue}
  {files : List (String × Nat)} {entries more : List FileEntry} {reply : ListReply}
  {replies : List ListReply} {trace : List ListEvent} {s : Enumeration}

theorem dirs_before_append (hwanted : fileCount entries < wanted) :
    dirsBefore wanted (entries ++ more) =
      dirsBefore wanted entries + dirsBefore (wanted - fileCount entries) more := by
  induction entries generalizing wanted with
  | nil => simp [dirsBefore, fileCount]
  | cons entry rest ih =>
    rw [List.cons_append, dirsBefore, dirsBefore]
    by_cases hdir : entry.isDir = true
    · have hcount : fileCount (entry :: rest) = fileCount rest := by simp [fileCount, hdir]
      rw [hcount] at hwanted ⊢
      rw [if_pos hdir, if_pos hdir, ih hwanted]
      omega
    · have hcount : fileCount (entry :: rest) = fileCount rest + 1 := by
        simp [fileCount, hdir]
      rw [hcount] at hwanted ⊢
      rw [if_neg hdir, if_neg hdir, if_neg (by omega), if_neg (by omega), ih (by omega),
        Nat.sub_sub, Nat.add_comm 1]

/-- What reading a page does to the lengths of the queue and of the files. -/
theorem read_page_lengths (dirRel : String) (depth : Nat) (entries : List FileEntry)
    (queue : DirQueue) (files : List (String × Nat)) (hfiles : files.length < maxFiles) :
    let result := Enumeration.readPage dirRel depth entries queue files
    result.1.length = queue.length + dirsBefore (maxFiles - files.length) entries ∧
      (result.2.2 = false → files.length + fileCount entries < maxFiles ∧
        result.2.1.length = files.length + fileCount entries) ∧
      (result.2.2 = true → maxFiles - files.length ≤ fileCount entries) := by
  induction entries generalizing queue files with
  | nil => simp [Enumeration.readPage, dirsBefore, fileCount, hfiles]
  | cons entry rest ih =>
    rw [Enumeration.readPage, dirsBefore]
    by_cases hdir : entry.isDir = true
    · have hcount : fileCount (entry :: rest) = fileCount rest := by simp [fileCount, hdir]
      dsimp only
      rw [if_pos hdir, if_pos hdir, if_pos hdir, if_neg (by omega), hcount]
      obtain ⟨hqueue, hopen, hcut⟩ :=
        ih (queue ++ [(childPath dirRel entry.name, depth + 1)]) files hfiles
      refine ⟨?_, hopen, hcut⟩
      rw [hqueue, List.length_append, List.length_singleton]
      omega
    · have hcount : fileCount (entry :: rest) = fileCount rest + 1 := by
        simp [fileCount, hdir]
      dsimp only
      rw [if_neg hdir, if_neg hdir, if_neg hdir, hcount, List.length_append,
        List.length_singleton]
      by_cases hfull : maxFiles ≤ files.length + 1
      · rw [if_pos hfull, if_pos (by omega)]
        refine ⟨rfl, fun h => absurd h (by simp), fun _ => by omega⟩
      · rw [if_neg hfull, if_neg (by omega)]
        have hlength : (files ++ [(childPath dirRel entry.name, entry.size)]).length =
            files.length + 1 := by simp
        obtain ⟨hqueue, hopen, hcut⟩ :=
          ih queue (files ++ [(childPath dirRel entry.name, entry.size)]) (by omega)
        rw [hlength] at hqueue hopen hcut
        refine ⟨?_, fun h => ?_, fun h => ?_⟩
        · rw [hqueue, Nat.sub_sub]
        · obtain ⟨hless, hfound⟩ := hopen h
          exact ⟨by omega, by omega⟩
        · have := hcut h
          omega

/-- What is resumed asks for one directory of the queue at most. -/
theorem resume_cases (queue : DirQueue) (files : List (String × Nat)) :
    Enumeration.resume queue files = .listed files ∨ ∃ dirRel depth rest,
      rest.length < queue.length ∧
        Enumeration.resume queue files = .asking dirRel depth 0 rest files := by
  induction queue with
  | nil => exact .inl rfl
  | cons first rest ih =>
    obtain ⟨dirRel, depth⟩ := first
    rw [Enumeration.resume]
    split
    · rcases ih with hlisted | ⟨dirRel, depth, left, hless, hasking⟩
      · exact .inl hlisted
      · exact .inr ⟨dirRel, depth, left, Nat.lt_succ_of_lt hless, hasking⟩
    · exact .inr ⟨dirRel, depth, rest, Nat.lt_succ_self _, rfl⟩

/-- An answer ends the listing with an error, or is a page: the listing is cut off, or asks for the
page that was announced, or goes on with the queue. -/
theorem Enumeration.step_cases {next : Enumeration} {emitted : List ListEvent}
    (h : s.step reply = some (next, emitted)) :
    ∃ dirRel depth cursor queue files, s = .asking dirRel depth cursor queue files ∧
      ((∃ error, next = .failed error ∧ emitted = [] ∧ reply.entries = [] ∧
          reply.barren = false) ∨
        ∃ entries announced queue' files' cut, reply = .page entries announced ∧
          readPage dirRel depth entries queue files = (queue', files', cut) ∧
          emitted = .queued queue'.length :: next.request ∧
          (cut = true ∧ next = .listed files' ∨
            cut = false ∧ ((∃ cursor, announced = some cursor ∧
                next = .asking dirRel depth cursor queue' files') ∨
              announced = none ∧ next = resume queue' files'))) := by
  cases s with
  | asking dirRel depth cursor queue files =>
    refine ⟨dirRel, depth, cursor, queue, files, rfl, ?_⟩
    cases reply with
    | page entries announced =>
      rcases hread : readPage dirRel depth entries queue files with ⟨queue', files', cut⟩
      simp only [step, hread, Option.some.injEq, Prod.mk.injEq] at h
      obtain ⟨rfl, rfl⟩ := h
      refine .inr ⟨entries, announced, queue', files', cut, rfl, hread, rfl, ?_⟩
      cases cut with
      | true => exact .inl ⟨rfl, rfl⟩
      | false =>
        cases announced with
        | some cursor => exact .inr ⟨rfl, .inl ⟨cursor, rfl, rfl⟩⟩
        | none => exact .inr ⟨rfl, .inr ⟨rfl, rfl⟩⟩
    | closed | silent | unsent =>
      obtain ⟨rfl, rfl⟩ := answer_inj h
      exact .inl ⟨_, rfl, rfl, rfl, rfl⟩
  | listed | failed => cases h

/-- The directories that a run of answers names before the files are cut off. -/
def namedDirs (replies : List ListReply) : Nat := dirsBefore maxFiles (allEntries replies)

/-- The pages of a run that announce another one and have no files. -/
def barrenPages (replies : List ListReply) : Nat := replies.countP ListReply.barren

/-- What the answers so far allow. The requests are one for each directory, and one for each page
that announces another one; such a page is barren, or has a file. -/
structure ListingInv (replies : List ListReply) (trace : List ListEvent) (s : Enumeration) :
    Prop where
  answered : replies.length ≤ requestCount trace
  asks : requestCount trace ≤ namedDirs replies + barrenPages replies + maxFiles
  queues : ∀ n, .queued n ∈ trace → n ≤ namedDirs replies
  pushes : ∀ bound, (∀ n, .queued n ∈ trace → n ≤ bound) →
    namedDirs replies ≤ bound * replies.length
  waiting : ∀ dirRel depth cursor queue files, s = .asking dirRel depth cursor queue files →
    replies.length < requestCount trace ∧ files.length < maxFiles ∧
      files.length = fileCount (allEntries replies) ∧ queue.length ≤ namedDirs replies ∧
        requestCount trace + queue.length ≤
          namedDirs replies + barrenPages replies + files.length + 1

theorem ListingInv.start (rootRel : String) : ListingInv [] [] (.start rootRel) where
  answered := Nat.zero_le _
  asks := by decide
  queues := nofun
  pushes := fun _ _ => Nat.zero_le _
  waiting := by
    rintro _ _ _ _ _ ⟨⟩
    decide

theorem all_entries_append :
    allEntries (replies ++ [reply]) = allEntries replies ++ reply.entries := by
  simp [allEntries]

theorem barren_pages_append (replies : List ListReply) (reply : ListReply) :
    barrenPages (replies ++ [reply]) =
      barrenPages replies + if reply.barren = true then 1 else 0 := by
  simp [barrenPages, List.countP_append, List.countP_singleton]

/-- The directories that an answer adds, while the files are not cut off. -/
theorem named_dirs_append (reply : ListReply)
    (hfiles : fileCount (allEntries replies) < maxFiles) :
    namedDirs (replies ++ [reply]) = namedDirs replies +
      dirsBefore (maxFiles - fileCount (allEntries replies)) reply.entries := by
  rw [namedDirs, all_entries_append, dirs_before_append hfiles]
  rfl

theorem request_count_append (trace emitted : List ListEvent) :
    requestCount (trace ++ emitted) =
      requestCount trace + emitted.countP ListEvent.isAsked := by
  simp only [requestCount, List.countP_append]
  omega

/-- A page that announces another one is barren or has a file. -/
theorem barren_or_file (entries : List FileEntry) (cursor : Nat) :
    (ListReply.page entries (some cursor)).barren = true ∨ 1 ≤ fileCount entries := by
  by_cases hbarren : (ListReply.page entries (some cursor)).barren = true
  · exact .inl hbarren
  · right
    have hany : ∃ entry ∈ entries, entry.isDir = false := by
      simpa [ListReply.barren] using hbarren
    obtain ⟨entry, hmem, hfile⟩ := hany
    exact List.countP_pos_iff.mpr ⟨entry, hmem, by simp [hfile]⟩

theorem ListingInv.step (h : ListingInv replies trace s) {next : Enumeration}
    {emitted : List ListEvent} (hstep : s.step reply = some (next, emitted)) :
    ListingInv (replies ++ [reply]) (trace ++ emitted) next := by
  obtain ⟨dirRel, depth, cursor, queue, files, rfl, hcases⟩ := Enumeration.step_cases hstep
  obtain ⟨hless, hopen, hcount, hqueue, hbudget⟩ := h.waiting _ _ _ _ _ rfl
  have hlength : (replies ++ [reply]).length = replies.length + 1 := by simp
  rcases hcases with ⟨error, rfl, rfl, hentries, hbarren⟩ |
    ⟨entries, announced, queue', files', cut, rfl, hread, rfl, hnext⟩
  · -- nothing was read, and nothing is asked for
    have hnamed : namedDirs (replies ++ [reply]) = namedDirs replies := by
      rw [namedDirs, all_entries_append, hentries, List.append_nil]
      rfl
    have hpages : barrenPages (replies ++ [reply]) = barrenPages replies := by
      rw [barren_pages_append, hbarren]
      rfl
    rw [List.append_nil]
    refine ⟨by omega, ?_, ?_, fun bound hbound => ?_, nofun⟩
    · rw [hnamed, hpages]
      exact h.asks
    · rw [hnamed]
      exact h.queues
    · rw [hnamed, hlength, Nat.mul_add]
      exact Nat.le_add_right_of_le (h.pushes bound hbound)
  · obtain ⟨hgrown, hrest, hcut⟩ := read_page_lengths dirRel depth entries queue files hopen
    rw [hread] at hgrown hrest hcut
    dsimp only at hgrown hrest hcut
    have hseen : fileCount (allEntries replies) < maxFiles := by omega
    have hnamed := named_dirs_append (.page entries announced) hseen
    rw [← hcount] at hnamed
    change _ = _ + dirsBefore _ entries at hnamed
    have hpages := barren_pages_append replies (.page entries announced)
    have hasks : (ListEvent.queued queue'.length :: next.request).countP ListEvent.isAsked =
        next.request.countP ListEvent.isAsked := by
      rw [List.countP_cons]
      rfl
    have hrequests := request_count_append trace (.queued queue'.length :: next.request)
    rw [hasks] at hrequests
    have hone : next.request.countP ListEvent.isAsked ≤ 1 := by
      cases next with
      | asking => exact Nat.le_refl 1
      | listed | failed => exact Nat.zero_le 1
    have hmem : ∀ n, .queued n ∈ trace ++ (.queued queue'.length :: next.request) →
        .queued n ∈ trace ∨ n = queue'.length := by
      intro n hn
      rcases List.mem_append.mp hn with hold | hnew
      · exact .inl hold
      · rcases List.mem_cons.mp hnew with heq | hrequest
        · cases heq
          exact .inr rfl
        · cases next with
          | asking =>
            rcases List.mem_cons.mp hrequest with heq | hnil
            · cases heq
            · cases hnil
          | listed | failed => cases hrequest
    have hpushes : ∀ bound, (∀ n, .queued n ∈ trace ++ (.queued queue'.length :: next.request) →
        n ≤ bound) → namedDirs (replies ++ [.page entries announced]) ≤
          bound * (replies ++ [ListReply.page entries announced]).length := by
      intro bound hbound
      have hold := h.pushes bound fun n hn => hbound n (List.mem_append_left _ hn)
      have hnew := hbound queue'.length (by simp)
      rw [hlength, Nat.mul_add, Nat.mul_one]
      omega
    have hqueues : ∀ n, .queued n ∈ trace ++ (.queued queue'.length :: next.request) →
        n ≤ namedDirs (replies ++ [.page entries announced]) := by
      intro n hn
      rcases hmem n hn with hold | rfl
      · have := h.queues n hold
        omega
      · omega
    rcases hnext with ⟨rfl, rfl⟩ | ⟨rfl, hnext⟩
    · -- the files are cut off
      refine ⟨by omega, ?_, hqueues, hpushes, nofun⟩
      have hnone : (Enumeration.listed files').request.countP ListEvent.isAsked = 0 := rfl
      omega
    · obtain ⟨hfew, hfiles⟩ := hrest rfl
      have hall : files'.length = fileCount (allEntries (replies ++ [.page entries announced])) := by
        rw [all_entries_append, fileCount, List.countP_append]
        exact hfiles.trans (congrArg (· + fileCount entries) hcount)
      rcases hnext with ⟨cursor, rfl, rfl⟩ | ⟨rfl, rfl⟩
      · -- the next page of the directory
        have hpaid : 1 ≤ (if (ListReply.page entries (some cursor)).barren = true then 1 else 0) +
            fileCount entries := by
          rcases barren_or_file entries cursor with hbarren | hfile
          · rw [if_pos hbarren]
            omega
          · omega
        have hasked : (Enumeration.asking dirRel depth cursor queue' files').request.countP
            ListEvent.isAsked = 1 := rfl
        refine ⟨by omega, by omega, hqueues, hpushes, ?_⟩
        rintro _ _ _ _ _ ⟨⟩
        exact ⟨by omega, by omega, hall, by omega, by omega⟩
      · rcases resume_cases queue' files' with hlisted | ⟨dirRel', depth', left, hshort, hasking⟩
        · rw [hlisted] at hone hrequests hqueues hpushes hmem ⊢
          have hnone : (Enumeration.listed files').request.countP ListEvent.isAsked = 0 := rfl
          exact ⟨by omega, by omega, hqueues, hpushes, nofun⟩
        · rw [hasking] at hone hrequests hqueues hpushes hmem ⊢
          have hasked : (Enumeration.asking dirRel' depth' 0 left files').request.countP
              ListEvent.isAsked = 1 := rfl
          refine ⟨by omega, by omega, hqueues, hpushes, ?_⟩
          rintro _ _ _ _ _ ⟨⟩
          exact ⟨by omega, by omega, hall, by omega, by omega⟩

/-- The peer is asked a bounded number of times, and the queue stays bounded, in all its runs if and
only if its answers name a bounded number of directories before the files are cut off, and have a
bounded number of pages that announce another one and have no files. -/
theorem listing_bounded_iff (rootRel : String) (peer : List ListReply → Prop) :
    (∃ bound, ∀ replies trace s, peer replies →
      Exec Enumeration.step Guard.free (.start rootRel) replies trace s →
        requestCount trace ≤ bound ∧ ∀ n, .queued n ∈ trace → n ≤ bound) ↔
    ∃ bound, ∀ replies trace s, peer replies →
      Exec Enumeration.step Guard.free (.start rootRel) replies trace s →
        namedDirs replies ≤ bound ∧ barrenPages replies ≤ bound := by
  have hinv : ∀ {replies trace s},
      Exec Enumeration.step Guard.free (.start rootRel) replies trace s →
        ListingInv replies trace s := by
    intro replies trace s hexec
    induction hexec with
    | start => exact .start rootRel
    | step _ _ hnext ih => exact ih.step hnext
  constructor
  · rintro ⟨bound, hbound⟩
    refine ⟨bound * bound + bound, fun replies trace s hpeer hexec => ?_⟩
    obtain ⟨hrequests, hqueues⟩ := hbound replies trace s hpeer hexec
    have hanswered := (hinv hexec).answered
    have hnamed := (hinv hexec).pushes bound hqueues
    have hbarren : barrenPages replies ≤ replies.length := List.countP_le_length
    have hproduct : bound * replies.length ≤ bound * bound :=
      Nat.mul_le_mul_left bound (Nat.le_trans hanswered hrequests)
    exact ⟨by omega, by omega⟩
  · rintro ⟨bound, hbound⟩
    refine ⟨bound + bound + maxFiles, fun replies trace s hpeer hexec => ?_⟩
    obtain ⟨hnamed, hbarren⟩ := hbound replies trace s hpeer hexec
    have hasks := (hinv hexec).asks
    refine ⟨by omega, fun n hn => ?_⟩
    have := (hinv hexec).queues n hn
    omega

/-- Empty pages that announce another one are asked for without end. -/
theorem empty_pages_run (n : Nat) : ∃ trace,
    Exec Enumeration.step Guard.free (.start "") (List.replicate n (.page [] (some 0))) trace
      (.start "") ∧ requestCount trace = n + 1 := by
  induction n with
  | zero => exact ⟨[], .start, rfl⟩
  | succ n ih =>
    obtain ⟨trace, hexec, hcount⟩ := ih
    refine ⟨trace ++ [.queued 0, .asked "" 0], ?_, ?_⟩
    · rw [List.replicate_succ']
      exact .step hexec trivial rfl
    · rw [request_count_append, hcount]
      rfl

/-- No number of requests is enough for every peer. -/
theorem peer_asked_for_ever :
    ¬ ∃ bound, ∀ rootRel replies trace s,
      Exec Enumeration.step Guard.free (.start rootRel) replies trace s →
        requestCount trace ≤ bound ∧ ∀ n, .queued n ∈ trace → n ≤ bound := by
  rintro ⟨bound, hbound⟩
  obtain ⟨trace, hexec, hcount⟩ := empty_pages_run bound
  have hfew := (hbound "" _ trace _ hexec).1
  omega

end Pages

end LocalTrans
