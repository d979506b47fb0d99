import LocalTrans.Relay.Steps

/-!
# The registrations of the relay

The tables are keyed by the fingerprint, and what ends is a connection. `RegistrySound` says that
nothing is removed on behalf of one connection that belongs to another, and that nothing refers to a
connection whose handler has ended. `orderly` says which steps have to be left out for that: a
connection that begins to be removed while a newer one of its client is there, a client that
registers anew while its older connection is being removed, and a handler that ends without a look
at the tables.
-/

namespace LocalTrans.Relay

open Foundation

/-- The connection that an operation enters. -/
def RelayOp.inserting : RelayOp → Option (Fingerprint × Nat)
  | .insert fp conn => some (fp, conn)
  | _ => none

/-- The connection on behalf of which an operation removes an entry or a lease. -/
def RelayOp.dropping : RelayOp → Option (Fingerprint × Nat)
  | .dropConn fp conn => some (fp, conn)
  | .dropLease fp conn => some (fp, conn)
  | _ => none

namespace RelayServer

/-- The client has another connection that is entered, about to be entered, or has the lease. -/
def Superseded (s : RelayServer) (fp : Fingerprint) (conn : Nat) : Prop :=
  (∃ pair ∈ s.conns, pair.1 = fp ∧ pair.2 ≠ conn) ∨
    (∃ entry ∈ s.table.leases, entry.fingerprint = fp ∧ entry.holder ≠ conn) ∨
    ∃ thread ∈ s.threads, ∃ op ∈ thread.ops, ∃ pair ∈ op.inserting, pair.1 = fp ∧ pair.2 ≠ conn
deriving Decidable

/-- Neither an entry nor a lease refers to a connection. -/
def Gone (s : RelayServer) (conn : Nat) : Prop :=
  (∀ pair ∈ s.conns, pair.2 ≠ conn) ∧ ∀ entry ∈ s.table.leases, entry.holder ≠ conn
deriving Decidable

/-- A connection that is entered is not superseded; of one that is not, something else is known. -/
def LastOr (s : RelayServer) (conn : Nat) (other : Prop) : Prop :=
  match s.fpOf conn with
  | some fp => ¬ s.Superseded fp conn
  | none => other

/-- A push fits in a frame and does not time out on a connection that is superseded. One that does
not fit ends a handler of which nothing is left in the tables. -/
def PushOrderly (s : RelayServer) (owner : Option Nat) (written : Bool) (op : RelayOp) : Prop :=
  ∀ pushed ∈ s.message op,
    if pushed.2.body.length ≤ maxFrame then
      written = false → ∀ pair ∈ op.guarded, ¬ s.Superseded pair.1 pair.2
    else ∀ conn ∈ owner, s.Gone conn
deriving Decidable

/-- No other connection of a client is being removed when it registers. -/
def RegisterOrderly (s : RelayServer) : RelayOp → Prop
  | .register fp _ _ _ conn _ => ∀ thread ∈ s.threads, ∀ op ∈ thread.ops, ∀ pair ∈ op.dropping,
      pair.1 = fp → pair.2 = conn
  | _ => True

end RelayServer

/-- The condition on one step. -/
def orderly : Guard RelayServer RelayInput RelayEvent :=
  fun _ s input =>
    match input with
    | .leave conn => s.LastOr conn True
    | .closed conn => s.LastOr conn (s.Gone conn)
    | .acceptFailed conn => s.Gone conn
    | .run i written => ∀ thread ∈ s.threads[i]?, ∀ op ∈ thread.ops.head?,
        s.PushOrderly thread.owner written op ∧ s.RegisterOrderly op
    | _ => True

section Decidability

variable (s : RelayServer)

instance (conn : Nat) (other : Prop) [Decidable other] : Decidable (s.LastOr conn other) := by
  unfold RelayServer.LastOr
  split <;> infer_instance

instance (op : RelayOp) : Decidable (s.RegisterOrderly op) := by
  unfold RelayServer.RegisterOrderly
  split <;> infer_instance

instance (trace : List RelayEvent) (input : RelayInput) : Decidable (orderly trace s input) := by
  unfold orderly
  induction input using RelayInput.casesOn <;> infer_instance

end Decidability

/-- What is removed on behalf of a connection belongs to it, and nothing refers to a connection that
has ended. -/
structure RegistrySound (trace : List RelayEvent) (s : RelayServer) : Prop where
  conns : ∀ behalf conn, .connRemoved behalf conn ∈ trace → behalf = conn
  leases : ∀ behalf conn, .leaseRemoved behalf conn ∈ trace → behalf = conn
  ended : ∀ conn ∈ s.ended, s.Gone conn

namespace RelayServer

variable {s next : RelayServer} {input : RelayInput} {inputs : List RelayInput}
  {trace emitted : List RelayEvent}

/-- Where the handler of a connection is that has seen its end: what it has removed is gone. -/
inductive Closing (s : RelayServer) (conn : Nat) : List RelayOp → Prop where
  | conn {fp : Fingerprint} (hpeer : s.peers[conn]? = some fp) :
      Closing s conn [.dropConn fp conn, .dropLease fp conn, .announce none, .finish conn]
  | lease {fp : Fingerprint} (hpeer : s.peers[conn]? = some fp)
      (hconns : ∀ pair ∈ s.conns, pair.2 ≠ conn) :
      Closing s conn [.dropLease fp conn, .announce none, .finish conn]
  | announce (hgone : s.Gone conn) : Closing s conn [.announce none, .finish conn]
  | fanOut {rev : Nat} (hgone : s.Gone conn) : Closing s conn [.fanOut none rev, .finish conn]
  | finish (hgone : s.Gone conn) : Closing s conn [.finish conn]

/-- A handler has ended, or is at its end. -/
def Over (s : RelayServer) (conn : Nat) : Prop :=
  conn ∈ s.ended ∨ ∃ owner, s.Pending owner (.finish conn)

/-- The invariant of an orderly run: a connection that is being removed is the last of its client; a
handler that is at its end does not register; and nothing is left of one that has ended. -/
structure Consistent (s : RelayServer) : Prop extends Enrolled s where
  dropping : ∀ owner op, s.Pending owner op → ∀ fp conn, op.dropping = some (fp, conn) →
    ¬ s.Superseded fp conn
  closing : ∀ thread ∈ s.threads, ∀ conn, .finish conn ∈ thread.ops → s.Closing conn thread.ops
  known : ∀ conn, s.Over conn → conn < s.peers.length
  done : ∀ conn, s.Over conn → ∀ owner op, s.Pending owner op → ∀ fp,
    op.enters ≠ some (fp, conn)
  ended : ∀ conn ∈ s.ended, s.Gone conn

variable {op : RelayOp} {fp : Fingerprint} {conn : Nat}

theorem inserting_eq (h : op.inserting = some (fp, conn)) : op = .insert fp conn := by
  cases op with
  | insert fp' conn' =>
    obtain ⟨rfl, rfl⟩ := answer_inj h
    rfl
  | _ => cases h

variable {owner : Option Nat}

/-- Only a registration leaves a connection to be entered. -/
theorem begins_insert (h : s.Begins input owner (.insert fp conn)) :
    ∃ name hidden token observed, s.Runs input (.register fp name hidden token conn observed) := by
  cases h with
  | spawn hspawns hmem =>
    cases hspawns <;> simp [punchFailed] at hmem
  | run hthread hyields =>
    cases hyields with
    | insert => exact ⟨_, _, _, _, _, _, _, _, rfl, hthread⟩
    | evict _ _ _ _ hlater => rcases hlater with hlater | hlater <;> cases hlater

/-- A connection stays the last of its client until another one registers. -/
theorem not_superseded_step (h : step s input = some (next, emitted))
    (hnot : ¬ s.Superseded fp conn) (hregister : ∀ name hidden token observed other,
      s.Runs input (.register fp name hidden token other observed) → other = conn) :
    ¬ next.Superseded fp conn := by
  have hchange := step_change h
  rintro (⟨pair, hmem, rfl, hne⟩ | ⟨entry, hmem, rfl, hne⟩ |
    ⟨thread, hthread, op, hop, pair, hpair, rfl, hne⟩)
  · rcases hchange.conns pair hmem with hold | hruns
    · exact hnot (.inl ⟨pair, hold, rfl, hne⟩)
    · obtain ⟨owner, thread, hthread, -, hop⟩ := pending_of_runs hruns
      exact hnot (.inr (.inr ⟨thread, hthread, _, hop, pair, rfl, rfl, hne⟩))
  · rcases hchange.leases entry hmem with hold | ⟨observed, hruns⟩
    · exact hnot (.inr (.inl ⟨entry, hold, rfl, hne⟩))
    · exact hne (hregister _ _ _ observed entry.holder hruns)
  · obtain rfl := inserting_eq hpair
    rcases step_pending h ⟨thread, hthread, rfl, hop⟩ with hold | hbegins
    · obtain ⟨old, hmem, -, hop⟩ := hold
      exact hnot (.inr (.inr ⟨old, hmem, _, hop, pair, rfl, rfl, hne⟩))
    · obtain ⟨name, hidden, token, observed, hruns⟩ := begins_insert hbegins
      exact hne (hregister name hidden token observed pair.2 hruns)

/-- Nothing is entered for a connection that does not register. -/
theorem no_conns_step (h : step s input = some (next, emitted))
    (hquiet : ∀ owner op, s.Pending owner op → ∀ fp, op.enters ≠ some (fp, conn))
    (hgone : ∀ pair ∈ s.conns, pair.2 ≠ conn) : ∀ pair ∈ next.conns, pair.2 ≠ conn := by
  rintro pair hmem rfl
  rcases (step_change h).conns pair hmem with hold | hruns
  · exact hgone pair hold rfl
  · obtain ⟨owner, hpending⟩ := pending_of_runs hruns
    exact hquiet owner _ hpending pair.1 rfl

theorem gone_step (h : step s input = some (next, emitted))
    (hquiet : ∀ owner op, s.Pending owner op → ∀ fp, op.enters ≠ some (fp, conn))
    (hgone : s.Gone conn) : next.Gone conn := by
  refine ⟨no_conns_step h hquiet hgone.1, ?_⟩
  rintro entry hmem rfl
  rcases (step_change h).leases entry hmem with hold | ⟨observed, hruns⟩
  · exact hgone.2 entry hold rfl
  · obtain ⟨owner, hpending⟩ := pending_of_runs hruns
    exact hquiet owner _ hpending entry.fingerprint rfl

/-- A handler that waits does not register. -/
theorem Enrolled.quiet_of_idle (hinv : s.Enrolled) (hidle : s.Idle (some conn)) :
    ∀ owner op, s.Pending owner op → ∀ fp, op.enters ≠ some (fp, conn) := by
  intro owner op hpending fp henters
  obtain ⟨rfl, -⟩ := hinv.entering owner op hpending fp conn henters
  obtain ⟨thread, hmem, howner, hop⟩ := hpending
  rw [hidle thread hmem howner] at hop
  cases hop

/-- What is gone stays gone, and so a handler that is at its end stays where it is. -/
theorem Closing.keep {ops : List RelayOp} (hclosing : s.Closing conn ops)
    (h : step s input = some (next, emitted))
    (hquiet : ∀ owner op, s.Pending owner op → ∀ fp, op.enters ≠ some (fp, conn)) :
    next.Closing conn ops := by
  cases hclosing with
  | conn hpeer => exact .conn (step_peer h hpeer)
  | lease hpeer hconns => exact .lease (step_peer h hpeer) (no_conns_step h hquiet hconns)
  | announce hgone => exact .announce (gone_step h hquiet hgone)
  | fanOut hgone => exact .fanOut (gone_step h hquiet hgone)
  | finish hgone => exact .finish (gone_step h hquiet hgone)

/-- The end of a handler is the last thing it does. -/
theorem Yields.not_finish {written : Bool} : ¬ s.Yields written op (.finish conn) := by
  intro h
  cases h with
  | evict _ _ _ _ hlater => rcases hlater with hlater | hlater <;> cases hlater

/-- A handler at its end does the next thing. -/
theorem Closing.advance {i : Nat} {written : Bool} {rest : List RelayOp} {thread : RelayThread}
    (hclosing : s.Closing conn (op :: rest)) (hinv : s.Enrolled)
    (h : step s (.run i written) = some (next, emitted))
    (hquiet : ∀ owner op, s.Pending owner op → ∀ fp, op.enters ≠ some (fp, conn))
    (hthread : s.threads[i]? = some ⟨owner, op :: rest⟩) (hmem : thread ∈ next.threads)
    (hfinish : .finish conn ∈ thread.ops) : thread ∈ s.threads ∨ next.Closing conn thread.ops := by
  obtain ⟨who, first, others, hfound, hrun⟩ := step_run h
  obtain ⟨rfl, rfl, rfl⟩ : owner = who ∧ op = first ∧ rest = others := by
    simpa using hthread.symm.trans hfound
  cases hclosing with
  | conn hpeer =>
    obtain rfl := congrArg Prod.fst hrun
    refine (mem_set_ops (s := { s with conns := _ }) hthread hmem).imp_right ?_
    rintro rfl
    refine .lease hpeer ?_
    -- What is entered for the connection has its fingerprint.
    rintro pair hpair rfl
    obtain ⟨hpair, hne⟩ := List.mem_filter.mp hpair
    have hsame := Option.some.inj ((hinv.conns pair hpair).symm.trans hpeer)
    simp [hsame] at hne
  | lease hpeer hconns =>
    obtain rfl := congrArg Prod.fst hrun
    refine (mem_set_ops (s := { s with table := _ }) hthread hmem).imp_right ?_
    rintro rfl
    refine .announce ⟨hconns, ?_⟩
    rintro entry hentry rfl
    obtain ⟨hentry, hne⟩ := List.mem_filter.mp hentry
    have hsame := Option.some.inj ((hinv.leases entry hentry).symm.trans hpeer)
    simp [hsame] at hne
  | announce hgone =>
    have hnext := gone_step h hquiet hgone
    obtain rfl := congrArg Prod.fst hrun
    refine (mem_set_ops (s := { s with rosterRev := _ }) hthread hmem).imp_right ?_
    rintro rfl
    exact .fanOut hnext
  | fanOut hgone =>
    have hnext := gone_step h hquiet hgone
    obtain rfl := congrArg Prod.fst hrun
    rcases List.mem_append.mp hmem with hmem | hmem
    · refine (mem_set_ops hthread hmem).imp_right ?_
      rintro rfl
      exact .finish hnext
    · obtain ⟨pair, -, rfl⟩ := List.mem_map.mp hmem
      cases List.mem_singleton.mp hfinish
  | finish hgone =>
    obtain rfl := congrArg Prod.fst hrun
    refine (mem_set_ops (s := { s with ended := _ }) hthread hmem).imp_right ?_
    rintro rfl
    cases hfinish

/-- How a handler comes to its end. -/
theorem over_step (h : step s input = some (next, emitted)) (hover : next.Over conn) :
    s.Over conn ∨ (s.Ready conn ∧ (input = .closed conn ∨ input = .acceptFailed conn)) ∨
      .panicked (some conn) ∈ emitted := by
  rcases hover with hended | ⟨owner, hpending⟩
  · rcases (step_change h).ended conn hended with hold | rfl | ⟨rfl, -⟩ | hruns | hpanicked
    · exact .inl (.inl hold)
    · simp only [step] at h
      obtain ⟨hready, h⟩ := of_when h
      exact .inr (.inl ⟨hready, .inr rfl⟩)
    · simp only [step] at h
      obtain ⟨hready, h⟩ := of_when h
      exact .inr (.inl ⟨hready, .inl rfl⟩)
    · exact .inl (.inr (pending_of_runs hruns))
    · exact .inr (.inr hpanicked)
  · rcases step_pending h hpending with hold | hbegins
    · exact .inl (.inr ⟨owner, hold⟩)
    · cases hbegins with
      | spawn hspawns hmem =>
        cases hspawns with
        | closed hready hfp =>
          obtain rfl : conn = _ := by simpa using hmem
          exact .inr (.inl ⟨hready, .inl rfl⟩)
        | _ => simp [punchFailed] at hmem
      | run _ hyields => exact absurd hyields Yields.not_finish

/-- A task that has died has nothing to do. -/
theorem panicked_idle (h : step s input = some (next, emitted)) (hmem : .panicked owner ∈ emitted)
    (op : RelayOp) : ¬ next.Pending owner op := by
  cases step_emits h hmem with
  | panicked hinput hthread hmsg hlong =>
    subst hinput
    obtain ⟨rfl, -⟩ := step_too_long h hthread hmsg hlong
    rintro ⟨thread, hthread, howner, hop⟩
    obtain ⟨old, hold, rfl⟩ := List.mem_map.mp hthread
    split at hop
    · cases hop
    · next hne =>
      rw [if_neg hne] at howner
      exact hne howner

theorem start_consistent (portStart portEnd : UInt16) (publicIp : IpAddr) :
    (start portStart portEnd publicIp).Consistent := by
  have hidle : ∀ owner op, ¬ (start portStart portEnd publicIp).Pending owner op := by
    rintro owner op ⟨thread, hmem, -⟩
    cases hmem
  refine { start_enrolled portStart portEnd publicIp with
    dropping := fun owner op hpending => absurd hpending (hidle owner op)
    closing := fun thread hmem => by cases hmem
    known := ?_
    done := fun conn hover owner op hpending => absurd hpending (hidle owner op)
    ended := fun conn hmem => by cases hmem }
  rintro conn (hmem | ⟨owner, hpending⟩)
  · cases hmem
  · exact absurd hpending (hidle owner _)

theorem Consistent.known_step (hinv : s.Consistent) (h : step s input = some (next, emitted))
    (hover : next.Over conn) : conn < next.peers.length := by
  have hle : s.peers.length ≤ next.peers.length := (step_change h).peers.length_le
  refine Nat.lt_of_lt_of_le ?_ hle
  rcases over_step h hover with hold | ⟨hready, -⟩ | hpanicked
  · exact hinv.known conn hold
  · exact hready.1
  · cases step_emits h hpanicked with
    | panicked _ hthread => exact hinv.owners conn _ (pending_of_thread hthread)

/-- A handler that is at its end does not register any more. -/
theorem Consistent.over_step (hinv : s.Consistent) (h : step s input = some (next, emitted))
    (hover : next.Over conn) (owner : Option Nat) (op : RelayOp) (hpending : next.Pending owner op)
    (fp : Fingerprint) : op.enters ≠ some (fp, conn) := by
  intro henters
  rcases RelayServer.over_step h hover with hold | ⟨hready, hinput⟩ | hpanicked
  · rcases step_pending h hpending with hpending | hbegins
    · exact hinv.done conn hold owner op hpending fp henters
    · cases hbegins with
      | spawn hspawns hmem =>
        obtain ⟨-, rfl, -⟩ := hspawns.enters hmem henters
        exact Nat.lt_irrefl _ (hinv.known _ hold)
      | run hthread hyields =>
        exact hinv.done conn hold _ _ (pending_of_thread hthread) fp (hyields.enters henters)
  · rcases step_pending h hpending with hpending | hbegins
    · exact hinv.quiet_of_idle hready.2.2 owner op hpending fp henters
    · cases hbegins with
      | spawn hspawns hmem =>
        obtain ⟨-, -, name, hidden, token, observed, rfl⟩ := hspawns.enters hmem henters
        rcases hinput with hinput | hinput <;> cases hinput
      | run => rcases hinput with hinput | hinput <;> cases hinput
  · obtain ⟨rfl, -⟩ := (hinv.toEnrolled.step h).entering owner op hpending fp conn henters
    exact panicked_idle h hpanicked op hpending

theorem last_of_fp_of {other : Prop} (h : s.LastOr conn other) (hfp : s.fpOf conn = some fp) :
    ¬ s.Superseded fp conn := by
  rwa [LastOr, hfp] at h

/-- What is removed belongs to the last connection of its client. -/
theorem Consistent.dropping_step (hinv : s.Consistent) (hguard : orderly trace s input)
    (h : step s input = some (next, emitted)) (hpending : next.Pending owner op)
    (hdropping : op.dropping = some (fp, conn)) : ¬ next.Superseded fp conn := by
  rcases step_pending h hpending with hold | hbegins
  · refine not_superseded_step h (hinv.dropping owner op hold fp conn hdropping) ?_
    rintro name hidden token observed other ⟨i, written, who, rest, rfl, hthread⟩
    obtain ⟨thread, hmem, -, hop⟩ := hold
    exact ((hguard _ hthread _ rfl).2 thread hmem op hop _ hdropping rfl).symm
  · cases hbegins with
    | spawn hspawns hmem =>
      have hnotrun : ∀ name hidden token observed other,
          ¬ s.Runs input (.register fp name hidden token other observed) := by
        rintro name hidden token observed other ⟨i, written, who, rest, rfl, -⟩
        cases hspawns
      suffices hlast : ¬ s.Superseded fp conn from not_superseded_step h hlast
        fun name hidden token observed other hruns =>
          absurd hruns (hnotrun name hidden token observed other)
      cases hspawns with
      | leave hfp =>
        simp only [List.mem_cons, List.not_mem_nil, or_false] at hmem
        rcases hmem with rfl | rfl | rfl
        · obtain ⟨rfl, rfl⟩ := answer_inj hdropping
          exact last_of_fp_of hguard hfp
        · obtain ⟨rfl, rfl⟩ := answer_inj hdropping
          exact last_of_fp_of hguard hfp
        · cases hdropping
      | closed _ hfp =>
        simp only [List.mem_cons, List.not_mem_nil, or_false] at hmem
        rcases hmem with rfl | rfl | rfl | rfl
        · obtain ⟨rfl, rfl⟩ := answer_inj hdropping
          exact last_of_fp_of hguard hfp
        · obtain ⟨rfl, rfl⟩ := answer_inj hdropping
          exact last_of_fp_of hguard hfp
        · cases hdropping
        · cases hdropping
      | _ =>
        obtain rfl := List.mem_singleton.mp hmem
        cases hdropping
    | @run i written _ first _ rest hthread hyields =>
      cases hyields with
      | @evict _ _ pair _ _ hguarded hmsg hfits hfailed hlater =>
        have hpush := (hguard _ hthread _ rfl).1 _ hmsg
        rw [if_pos hfits] at hpush
        have hlast := hpush hfailed _ hguarded
        obtain rfl : (fp, conn) = pair := by
          rcases hlater with rfl | rfl
          · exact (Option.some.inj hdropping).symm
          · exact (Option.some.inj hdropping).symm
        refine not_superseded_step h hlast ?_
        rintro name hidden token observed other ⟨j, written', who', rest', hinput, hthread'⟩
        obtain ⟨rfl, rfl⟩ := RelayInput.run.inj hinput
        obtain ⟨-, rfl, -⟩ : owner = who' ∧ first = _ ∧ rest = rest' := by
          simpa using hthread.symm.trans hthread'
        cases hguarded
      | _ => cases hdropping

theorem Consistent.closing_step (hinv : s.Consistent) (h : step s input = some (next, emitted))
    {thread : RelayThread} (hmem : thread ∈ next.threads) (hfinish : .finish conn ∈ thread.ops) :
    next.Closing conn thread.ops := by
  have hkeep : thread ∈ s.threads → next.Closing conn thread.ops := fun hold =>
    (hinv.closing thread hold conn hfinish).keep h
      (hinv.done conn (.inr ⟨thread.owner, thread, hold, rfl, hfinish⟩))
  rcases step_threads h hmem with hold | hspawns | ⟨i, written, op, rest, rfl, hthread, hops⟩
  · exact hkeep hold
  · obtain ⟨owner, ops⟩ := thread
    cases hspawns with
    | closed _ hfp =>
      obtain rfl : conn = _ := by simpa using hfinish
      exact .conn (step_peer h (hinv.conns _ (mem_of_fp_of hfp)))
    | _ => simp [punchFailed] at hfinish
  · have hrest : .finish conn ∈ rest := (hops _ hfinish).resolve_right Yields.not_finish
    have hold : .finish conn ∈ op :: rest := List.mem_cons_of_mem _ hrest
    have hclosing := hinv.closing _ (List.mem_of_getElem? hthread) conn hold
    have hover : s.Over conn :=
      .inr ⟨thread.owner, _, List.mem_of_getElem? hthread, rfl, hold⟩
    rcases hclosing.advance hinv.toEnrolled h (hinv.done conn hover) hthread hmem hfinish with
      hsame | hnext
    · exact hkeep hsame
    · exact hnext

theorem Consistent.ended_step (hinv : s.Consistent) (hguard : orderly trace s input)
    (h : step s input = some (next, emitted)) (hended : conn ∈ next.ended) : next.Gone conn := by
  rcases (step_change h).ended conn hended with hold | rfl | ⟨rfl, hnone⟩ | hruns | hpanicked
  · exact gone_step h (hinv.done conn (.inl hold)) (hinv.ended conn hold)
  · have hgone : s.Gone conn := hguard
    simp only [step] at h
    obtain ⟨-, rfl, -⟩ := when_answer h
    exact hgone
  · have hgone : s.Gone conn := by
      have hother : s.LastOr conn (s.Gone conn) := hguard
      rwa [LastOr, hnone] at hother
    simp only [step] at h
    obtain ⟨-, h⟩ := of_when h
    rw [hnone] at h
    obtain ⟨rfl, -⟩ := answer_inj h
    exact hgone
  · obtain ⟨i, written, owner, rest, rfl, hthread⟩ := hruns
    have hmem := List.mem_of_getElem? hthread
    have hover : s.Over conn := .inr ⟨owner, _, hmem, rfl, List.mem_cons_self⟩
    have hclosing := hinv.closing _ hmem conn List.mem_cons_self
    have hgone : s.Gone conn := by
      cases hclosing with
      | finish hgone => exact hgone
    exact gone_step h (hinv.done conn hover) hgone
  · cases step_emits h hpanicked with
    | panicked hinput hthread hmsg hlong =>
      subst hinput
      have hpush := (hguard _ hthread _ rfl).1 _ hmsg
      rw [if_neg (Nat.not_le.mpr hlong)] at hpush
      have hgone : s.Gone conn := hpush conn rfl
      obtain ⟨rfl, -⟩ := step_too_long h hthread hmsg hlong
      exact hgone

theorem Consistent.step (hinv : s.Consistent) (hguard : orderly trace s input)
    (h : step s input = some (next, emitted)) : next.Consistent :=
  { hinv.toEnrolled.step h with
    dropping := fun _ _ hpending _ _ hdropping => hinv.dropping_step hguard h hpending hdropping
    closing := fun _ hmem _ hfinish => hinv.closing_step h hmem hfinish
    known := fun _ hover => hinv.known_step h hover
    done := fun _ hover => hinv.over_step h hover
    ended := fun _ hended => hinv.ended_step hguard h hended }

/-- What is removed belongs to the connection on behalf of which it is removed. -/
theorem Consistent.removes_own (hinv : s.Consistent) (h : s.step input = some (next, emitted))
    {behalf : Nat}
    (hmem : .connRemoved behalf conn ∈ emitted ∨ .leaseRemoved behalf conn ∈ emitted) :
    behalf = conn := by
  rcases hmem with hmem | hmem
  · cases step_emits h hmem with
    | connRemoved hruns hold =>
      obtain ⟨owner, hpending⟩ := pending_of_runs hruns
      by_contra hne
      exact hinv.dropping owner _ hpending _ _ rfl (.inl ⟨_, hold, rfl, Ne.symm hne⟩)
  · cases step_emits h hmem with
    | leaseRemoved hruns hold =>
      obtain ⟨owner, hpending⟩ := pending_of_runs hruns
      by_contra hne
      exact hinv.dropping owner _ hpending _ _ rfl (.inr (.inl ⟨_, hold, rfl, Ne.symm hne⟩))

end RelayServer

/-- In a run of orderly steps the registrations are sound. -/
theorem orderly_registry_sound {portStart portEnd : UInt16} {publicIp : IpAddr}
    {inputs : List RelayInput} {trace : List RelayEvent} {s : RelayServer}
    (h : Exec RelayServer.step orderly (.start portStart portEnd publicIp) inputs trace s) :
    RegistrySound trace s := by
  suffices hinv : s.Consistent ∧ (∀ behalf conn, .connRemoved behalf conn ∈ trace → behalf = conn) ∧
      ∀ behalf conn, .leaseRemoved behalf conn ∈ trace → behalf = conn from
    ⟨hinv.2.1, hinv.2.2, hinv.1.ended⟩
  induction h with
  | start => exact ⟨RelayServer.start_consistent portStart portEnd publicIp, by simp, by simp⟩
  | step _ hmeets hnext ih =>
    obtain ⟨hinv, hconns, hleases⟩ := ih
    refine ⟨hinv.step hmeets hnext, fun behalf conn hmem => ?_, fun behalf conn hmem => ?_⟩
    · rcases List.mem_append.mp hmem with hold | hnew
      · exact hconns behalf conn hold
      · exact hinv.removes_own hnext (.inl hnew)
    · rcases List.mem_append.mp hmem with hold | hnew
      · exact hleases behalf conn hold
      · exact hinv.removes_own hnext (.inr hnew)

/-- The client registers on a second connection. The first one is closed, and then the second. -/
def takeover : List RelayInput :=
  registration 1 "phone" 0 ++ registration 1 "phone" 1 ++ [.closed 0, .closed 1] ++
    List.replicate 5 (.run 2 true)

/-- A roster is on its way on the first connection while the client registers on a second one. The
push of the roster times out. -/
def lateEviction : List RelayInput :=
  registration 1 "phone" 0 ++ [.ping 0, .run 1 true] ++ (registration 1 "phone" 2).take 3 ++
    [.run 1 false, .run 1 true, .run 1 true]

/-- A client that moves to another connection: only the last one is removed. -/
theorem takeover_is_sound :
    ∃ trace s, Exec RelayServer.step orderly sampleRelay takeover trace s ∧ s.ended = [1, 0] ∧
      s.conns = [] ∧ s.table.leases = [] ∧ RegistrySound trace s := by
  have hrun : (Machine.run RelayServer.step orderly [] sampleRelay takeover).map
      (fun result => (result.1.ended, result.1.conns, result.1.table.leases)) =
        some ([1, 0], [], []) := by decide +kernel
  obtain ⟨trace, s, hexec, hviews⟩ := exec_reaches RelayServer.step orderly sampleRelay takeover
    (fun s => (s.ended, s.conns, s.table.leases)) _ hrun
  obtain ⟨hended, hviews⟩ := Prod.mk.inj hviews
  obtain ⟨hconns, hleases⟩ := Prod.mk.inj hviews
  exact ⟨trace, s, hexec, hended, hconns, hleases, orderly_registry_sound hexec⟩

/-- The eviction of a superseded connection removes the entry of the current one, and a handler that
fails to accept a stream leaves the entry of its connection. -/
theorem registry_unsound :
    (¬ ∀ (inputs : List RelayInput) (trace : List RelayEvent) (s : RelayServer),
      Exec RelayServer.step Guard.free sampleRelay inputs trace s →
        (∀ behalf conn, .connRemoved behalf conn ∈ trace → behalf = conn) ∧
        ∀ behalf conn, .leaseRemoved behalf conn ∈ trace → behalf = conn) ∧
    ¬ ∀ (inputs : List RelayInput) (trace : List RelayEvent) (s : RelayServer),
      Exec RelayServer.step Guard.free sampleRelay inputs trace s → ∀ conn ∈ s.ended, s.Gone conn := by
  constructor
  · intro hall
    have hrun : (Machine.run RelayServer.step Guard.free [] sampleRelay lateEviction).map
        (fun result => (result.2.drop 1, result.1.conns)) =
          some ([.connRemoved 0 1, .leaseRemoved 0 1], []) := by decide +kernel
    obtain ⟨⟨s, trace⟩, hrun, hviews⟩ := Option.map_eq_some_iff.mp hrun
    obtain ⟨htrace, -⟩ := Prod.mk.inj hviews
    have hremoved : .connRemoved 0 1 ∈ trace :=
      List.mem_of_mem_drop (htrace ▸ List.mem_cons_self)
    cases (hall _ trace s (Exec.start.append_run hrun)).1 0 1 hremoved
  · intro hall
    have hrun : (Machine.run RelayServer.step Guard.free [] sampleRelay
        (registration 1 "phone" 0 ++ [.acceptFailed 0])).map
          (fun result => (result.1.ended, result.1.conns)) = some ([0], [(1, 0)]) := by
      decide +kernel
    obtain ⟨⟨s, trace⟩, hrun, hviews⟩ := Option.map_eq_some_iff.mp hrun
    obtain ⟨hended, hconns⟩ := Prod.mk.inj hviews
    have hmem : 0 ∈ s.ended := by
      rw [show s.ended = [0] from hended]
      exact List.mem_singleton.mpr rfl
    have hentry : (1, 0) ∈ s.conns := by
      rw [show s.conns = [(1, 0)] from hconns]
      exact List.mem_singleton.mpr rfl
    exact (hall _ trace s (Exec.start.append_run hrun) 0 hmem).1 _ hentry rfl

end LocalTrans.Relay
