import CppServerFramework.Async.FdManager
import CppServerFramework.Async.IOHook
import CppServerFramework.Stream.SocketStream

/-!
# Hooked reads of a connection

The hooked calls of one fiber that read from a connection (`hook.cpp:85-177`, `327-345`), with the
bytes that the kernel has for it.  The descriptor does not block, the calls do: what they return is
what a connection that blocks could have returned.
-/

namespace CppServerFramework

/-- Reads one after another, of at most the numbers of bytes given. -/
def PeerSocket.reads : List Nat → PeerSocket → Option (List (List UInt8) × PeerSocket)
  | [], s => some ([], s)
  | n :: ns, s => (s.read n).bind fun r => (reads ns r.2).map fun rs => (r.1 :: rs.1, rs.2)

namespace Async

inductive Errno where
  | eagain
  | eintr
  | etimedout
  | ebadf
  /-- what `addEvent` has left in `errno` -/
  | addEvent
  | other (code : Nat)
  deriving DecidableEq, Repr

/-- What a call returns: the bytes, or `-1`. -/
inductive Answer where
  | bytes (bs : List UInt8)
  | error (e : Errno)
  deriving DecidableEq, Repr

/-- What has come for a descriptor, and whether the peer has closed the connection behind it. -/
structure RecvQueue where
  queue : List UInt8 := []
  eof : Bool := false
  deriving DecidableEq, Repr

/-- What is left to the kernel in a call: a signal comes, some of the bytes are taken, there are
    none, or the call fails. -/
inductive RecvChoice where
  | interrupted
  | take (k : Nat)
  | empty
  | failed (code : Nat)
  deriving DecidableEq, Repr

/-- The original function on a descriptor that does not block. -/
def RecvQueue.recv (q : RecvQueue) (n : Nat) : RecvChoice → Option (Answer × RecvQueue)
  | .interrupted => some (.error .eintr, q)
  | .take k =>
    if 0 < k ∧ k ≤ n ∧ k ≤ q.queue.length ∧ k < 2 ^ 31 then
      some (.bytes (q.queue.take k), { q with queue := q.queue.drop k })
    else none
  | .empty =>
    if q.queue = [] then some (if q.eof then .bytes [] else .error .eagain, q) else none
  | .failed code => some (.error (.other code), q)

/-- Where `IOhook` goes. -/
inductive Route where
  | original
  | closed
  | waits (timeout : UInt64)
  deriving DecidableEq, Repr

/-- The tests at the beginning of `IOhook` (`hook.cpp:88-111`); `ctx` is what `get(fd)` finds. -/
def IOhook.route (hookEnable : Bool) (ctx : Option FdObject) : Route :=
  if !hookEnable then .original
  else
    match ctx with
    | none => .original
    | some o =>
      if o.ctx.isClosed then .closed
      else if !o.ctx.isSocket || o.ctx.userNonblock then .original
      else .waits (o.getTimeout soRcvtimeo)

/-- A call that has returned, with the number of bytes it has been asked for, and whether it was
    one that waits. -/
structure Outcome where
  asked : Nat
  waits : Bool
  answer : Answer
  deriving DecidableEq, Repr

/-- A fiber and the connection it reads from.  `arrived` are all the bytes that have come for it. -/
structure HookedSocket where
  hook : HookState
  kernel : RecvQueue := {}
  arrived : List UInt8 := []
  asked : Nat := 0
  outcomes : List Outcome := []

inductive HookedAction where
  /-- bytes come, or the peer closes the connection -/
  | arrive (bs : List UInt8)
  | shutdown
  /-- a call that goes to the original function, or is refused -/
  | direct (hookEnable : Bool) (ctx : Option FdObject) (n : Nat) (choice : RecvChoice)
  | refused (hookEnable : Bool) (ctx : Option FdObject) (n : Nat)
  /-- a call that waits begins, and calls the original function -/
  | enter (hookEnable : Bool) (ctx : Option FdObject) (n fd : Nat)
  | call (choice : RecvChoice)
  /-- any other step of the call, of the timers and of other threads -/
  | hook (a : HookAction)

namespace HookedSocket

variable (s : HookedSocket)

def returns (asked : Nat) (waits : Bool) (answer : Answer) : HookedSocket :=
  { s with outcomes := s.outcomes ++ [⟨asked, waits, answer⟩] }

/-- The original function in a call that waits (`hook.cpp:114-122`, `172`). -/
def call (choice : RecvChoice) : Option HookedSocket :=
  match s.kernel.recv s.asked choice with
  | none => none
  | some (.error .eintr, _) => if s.hook.phase = .trying then some s else none
  | some (.error .eagain, _) => (s.hook.tryCall true).map fun hook => { s with hook }
  | some (answer, kernel) =>
    (s.hook.tryCall false).map fun hook => { s with hook, kernel }.returns s.asked true answer

/-- A step with which the call may return: `-1` (`hook.cpp:147-157`, `166-169`). -/
def hookStep (a : HookAction) : Option HookedSocket :=
  (s.hook.step a).map fun hook =>
    if s.hook.phase ≠ .returned ∧ hook.phase = .returned then
      { s with hook }.returns s.asked true
        (.error (match a with | .check => .etimedout | _ => .addEvent))
    else { s with hook }

def step : HookedAction → Option HookedSocket
  | .arrive bs =>
    if s.kernel.eof then none
    else some { s with
      kernel := { s.kernel with queue := s.kernel.queue ++ bs }, arrived := s.arrived ++ bs }
  | .shutdown => some { s with kernel := { s.kernel with eof := true } }
  | .direct hookEnable ctx n choice =>
    if 0 < n ∧ s.hook.phase = .returned ∧ IOhook.route hookEnable ctx = .original then
      (s.kernel.recv n choice).map fun r => { s with kernel := r.2 }.returns n false r.1
    else none
  | .refused hookEnable ctx n =>
    if s.hook.phase = .returned ∧ IOhook.route hookEnable ctx = .closed then
      some (s.returns n false (.error .ebadf))
    else none
  | .enter hookEnable ctx n fd =>
    match IOhook.route hookEnable ctx with
    | .waits timeout =>
      if 0 < n then
        (s.hook.enter .io fd .read timeout).map fun hook => { s with hook, asked := n }
      else none
    | _ => none
  | .call choice => s.call choice
  | .hook (.enter ..) => none
  | .hook (.tryCall _) => none
  | .hook a => s.hookStep a

/-- The calls that have returned bytes, or their end. -/
def reads : List (Nat × List UInt8) :=
  s.outcomes.filterMap fun o =>
    match o.answer with
    | .bytes bs => some (o.asked, bs)
    | .error _ => none

end HookedSocket

/-- A fiber before its first call, and a connection on which nothing has come. -/
def hookedMachine : Machine HookedSocket HookedAction where
  init s := ∃ fiber scheduler, s = { hook := { fiber, scheduler } }
  step := HookedSocket.step

/-! ## What has been read -/

/-- Reads that get all of a segment each. -/
theorem reads_segments {rs : List (Nat × List UInt8)}
    (h : ∀ r ∈ rs, r.2.length ≤ r.1 ∧ r.2.length < 2 ^ 31) (segs : List (List UInt8))
    (closed : Bool) :
    PeerSocket.reads (rs.map Prod.fst) ⟨rs.map Prod.snd ++ segs, closed⟩ =
      some (rs.map Prod.snd, ⟨segs, closed⟩) := by
  induction rs with
  | nil => rfl
  | cons r rs ih =>
    rw [List.forall_mem_cons] at h
    have hread : PeerSocket.read ⟨(r :: rs).map Prod.snd ++ segs, closed⟩ r.1 =
        some (r.2, ⟨rs.map Prod.snd ++ segs, closed⟩) := by
      have hk : min (min r.1 r.2.length) (2 ^ 31 - 1) = r.2.length := by omega
      rw [PeerSocket.read]
      simp only [List.map_cons, List.cons_append, hk, if_true, List.take_length]
    rw [List.map_cons, PeerSocket.reads, hread, Option.bind_some, ih h.2]
    rfl

/-- Reads behind the end. -/
theorem reads_end (ns : List Nat) :
    PeerSocket.reads ns ⟨[], true⟩ = some (ns.map fun _ => [], ⟨[], true⟩) := by
  induction ns with
  | nil => rfl
  | cons n ns ih =>
    have hread : PeerSocket.read ⟨[], true⟩ n = some ([], ⟨[], true⟩) := rfl
    rw [PeerSocket.reads, hread, Option.bind_some, ih]
    rfl

theorem reads_append {ns ms : List Nat} {s t u : PeerSocket} {bss css : List (List UInt8)}
    (hns : PeerSocket.reads ns s = some (bss, t)) (hms : PeerSocket.reads ms t = some (css, u)) :
    PeerSocket.reads (ns ++ ms) s = some (bss ++ css, u) := by
  induction ns generalizing s bss with
  | nil =>
    cases hns
    exact hms
  | cons n ns ih =>
    rw [PeerSocket.reads] at hns
    obtain ⟨r, hr, hrest⟩ := Option.bind_eq_some_iff.mp hns
    obtain ⟨rs, hrs, heq⟩ := Option.map_eq_some_iff.mp hrest
    cases heq
    rw [List.cons_append, PeerSocket.reads, hr, Option.bind_some, ih hrs]
    rfl

/-! ## Every run -/

namespace RecvQueue

variable {q q' : RecvQueue} {n : Nat} {choice : RecvChoice} {answer : Answer}

/-- The call takes the next bytes, finds the end, or leaves everything as it is. -/
theorem recv_cases (h : q.recv n choice = some (answer, q')) :
    (∃ bs, answer = .bytes bs ∧ (bs ≠ [] ∧ bs.length ≤ n ∧ bs.length < 2 ^ 31) ∧
      q.queue = bs ++ q'.queue ∧ q'.eof = q.eof) ∨
    (answer = .bytes [] ∧ q.eof = true ∧ q.queue = [] ∧ q' = q) ∨
    ∃ e, answer = .error e ∧ q' = q := by
  cases choice with
  | interrupted =>
    cases h
    exact Or.inr (Or.inr ⟨_, rfl, rfl⟩)
  | failed code =>
    cases h
    exact Or.inr (Or.inr ⟨_, rfl, rfl⟩)
  | take k =>
    rw [recv] at h
    split at h <;> cases h
    next hk =>
    have hlen : (q.queue.take k).length = k := by
      rw [List.length_take]
      omega
    refine Or.inl ⟨_, rfl, ⟨?_, by omega, by omega⟩, (List.take_append_drop k q.queue).symm, rfl⟩
    exact List.ne_nil_of_length_pos (by omega)
  | empty =>
    rw [recv] at h
    split at h <;> cases h
    next hqueue =>
    cases heof : q.eof with
    | true => exact Or.inr (Or.inl ⟨rfl, rfl, hqueue, rfl⟩)
    | false => exact Or.inr (Or.inr ⟨_, rfl, rfl⟩)

end RecvQueue

namespace HookedSocket

variable {s s' : HookedSocket} {hook : HookState} {n : Nat} {waits : Bool} {answer : Answer}

/-- The reads are those of full segments and of the end, which comes behind all bytes. -/
def Streamed (s : HookedSocket) : Prop :=
  ∃ full ends, s.reads = full ++ List.map (fun n => (n, [])) ends ∧
    (∀ r ∈ full, r.2 ≠ [] ∧ r.2.length ≤ r.1 ∧ r.2.length < 2 ^ 31) ∧
    (ends ≠ [] → s.kernel.eof = true ∧ s.kernel.queue = []) ∧
    (full.map Prod.snd).flatten ++ s.kernel.queue = s.arrived

/-- No call that waits tells its caller to try again. -/
def Patient (s : HookedSocket) : Prop :=
  ∀ o ∈ s.outcomes, o.waits = true → o.answer ≠ .error .eagain ∧ o.answer ≠ .error .eintr

theorem Streamed.error (h : s.Streamed) (e : Errno) (hook : HookState) :
    ({ s with hook }.returns n waits (.error e)).Streamed := by
  have hreads : ({ s with hook }.returns n waits (.error e)).reads = s.reads := by
    simp [reads, returns]
  obtain ⟨full, ends, heq, hrest⟩ := h
  exact ⟨full, ends, hreads.trans heq, hrest⟩

/-- A call of the original function keeps the order of the bytes. -/
theorem Streamed.recv (h : s.Streamed) {choice : RecvChoice} {kernel : RecvQueue}
    (hrecv : s.kernel.recv n choice = some (answer, kernel)) (hook : HookState) :
    ({ s with hook, kernel }.returns n waits answer).Streamed := by
  rcases RecvQueue.recv_cases hrecv with ⟨bs, rfl, hbs, hqueue, heof⟩ | ⟨rfl, heof, hqueue, rfl⟩ |
    ⟨e, rfl, rfl⟩
  · obtain ⟨full, ends, heq, hfull, hends, harrived⟩ := h
    have hnil : ends = [] := by
      by_contra hne
      rw [(hends hne).2] at hqueue
      exact hbs.1 (List.append_eq_nil_iff.mp hqueue.symm).1
    subst hnil
    rw [List.map_nil, List.append_nil] at heq
    refine ⟨full ++ [(n, bs)], [], ?_, ?_, fun h => absurd rfl h, ?_⟩
    · have hreads : ({ s with hook, kernel }.returns n waits (.bytes bs)).reads =
          s.reads ++ [(n, bs)] := by
        simp [reads, returns]
      rw [hreads, heq, List.map_nil, List.append_nil]
    · intro r hr
      rcases List.mem_append.mp hr with hr | hr
      · exact hfull r hr
      · rw [List.mem_singleton.mp hr]
        exact hbs
    · rw [hqueue] at harrived
      simpa [returns] using harrived
  · obtain ⟨full, ends, heq, hfull, hends, harrived⟩ := h
    refine ⟨full, ends ++ [n], ?_, hfull, fun _ => ⟨heof, hqueue⟩, harrived⟩
    have hreads : ({ s with hook, kernel := s.kernel }.returns n waits (.bytes [])).reads =
        s.reads ++ [(n, [])] := by
      simp [reads, returns]
    rw [hreads, heq, List.map_append, List.append_assoc]
    rfl
  · exact h.error e hook

theorem Patient.returns (h : s.Patient) (kernel : RecvQueue) (hook : HookState)
    (hanswer : waits = true → answer ≠ .error .eagain ∧ answer ≠ .error .eintr) :
    ({ s with hook, kernel }.returns n waits answer).Patient := by
  intro o ho hwaits
  rcases List.mem_append.mp ho with ho | ho
  · exact h o ho hwaits
  · rw [List.mem_singleton.mp ho] at hwaits ⊢
    exact hanswer hwaits

theorem step_keeps {a : HookedAction} (h : s.Streamed ∧ s.Patient) (hs : s.step a = some s') :
    s'.Streamed ∧ s'.Patient := by
  obtain ⟨hstreamed, hpatient⟩ := h
  have hsame : ∀ {hook : HookState} {asked : Nat},
      { s with hook, asked }.Streamed ∧ { s with hook, asked }.Patient :=
    ⟨hstreamed, hpatient⟩
  have hhook : ∀ {a : HookAction}, s.hookStep a = some s' → s'.Streamed ∧ s'.Patient := by
    intro a hs
    obtain ⟨hook, -, rfl⟩ := Option.map_eq_some_iff.mp hs
    split
    · refine ⟨hstreamed.error _ hook, hpatient.returns s.kernel hook fun _ => ?_⟩
      split <;> decide
    · exact hsame
  cases a with
  | arrive bs =>
    simp only [step] at hs
    split at hs <;> cases hs
    next heof =>
    obtain ⟨full, ends, heq, hfull, hends, harrived⟩ := hstreamed
    refine ⟨⟨full, ends, heq, hfull, fun hne => absurd (hends hne).1 heof, ?_⟩, hpatient⟩
    rw [← harrived, List.append_assoc]
  | shutdown =>
    cases hs
    obtain ⟨full, ends, heq, hfull, hends, harrived⟩ := hstreamed
    exact ⟨⟨full, ends, heq, hfull, fun hne => ⟨rfl, (hends hne).2⟩, harrived⟩, hpatient⟩
  | direct hookEnable ctx n choice =>
    simp only [step] at hs
    split at hs
    · obtain ⟨⟨answer, kernel⟩, hrecv, rfl⟩ := Option.map_eq_some_iff.mp hs
      exact ⟨hstreamed.recv hrecv s.hook, hpatient.returns kernel s.hook fun h => (by cases h)⟩
    · cases hs
  | refused hookEnable ctx n =>
    simp only [step] at hs
    split at hs <;> cases hs
    exact ⟨hstreamed.error _ s.hook, hpatient.returns s.kernel s.hook fun h => (by cases h)⟩
  | enter hookEnable ctx n fd =>
    simp only [step] at hs
    split at hs
    · split at hs
      · obtain ⟨hook, -, rfl⟩ := Option.map_eq_some_iff.mp hs
        exact hsame
      · cases hs
    · cases hs
  | call choice =>
    simp only [step, call] at hs
    split at hs
    · cases hs
    · split at hs <;> cases hs
      exact ⟨hstreamed, hpatient⟩
    · obtain ⟨hook, -, rfl⟩ := Option.map_eq_some_iff.mp hs
      exact hsame
    · next answer kernel hintr hagain hrecv =>
      obtain ⟨hook, -, rfl⟩ := Option.map_eq_some_iff.mp hs
      refine ⟨hstreamed.recv hrecv hook, hpatient.returns kernel hook fun _ => ⟨?_, ?_⟩⟩
      · rintro rfl
        exact hagain rfl
      · rintro rfl
        exact hintr rfl
  | hook a =>
    cases a with
    | enter kind fd event timeout => cases hs
    | tryCall blocks => cases hs
    | arm => exact hhook hs
    | addEvent ctl => exact hhook hs
    | yieldToHold => exact hhook hs
    | resume => exact hhook hs
    | cancel => exact hhook hs
    | check => exact hhook hs
    | collect i => exact hhook hs
    | callback i ctl => exact hhook hs
    | other a => exact hhook hs

end HookedSocket

/-- What the hooked reads of a run return, a connection that blocks could have returned, with
    nothing lost, added or moved; and no call that waits tells its caller to try again. -/
theorem hooked_reads_stream {s : HookedSocket} (h : hookedMachine.Reachable s) :
    (∀ o ∈ s.outcomes, o.waits = true →
      o.answer ≠ .error .eagain ∧ o.answer ≠ .error .eintr) ∧
    ∃ sock t : PeerSocket, sock.Proper ∧ sock.bytes = s.arrived ∧ sock.closed = s.kernel.eof ∧
      sock.reads (s.reads.map Prod.fst) = some (s.reads.map Prod.snd, t) ∧
      t.bytes = s.kernel.queue := by
  have hkeeps : s.Streamed ∧ s.Patient := by
    refine h.invariant (P := fun s => s.Streamed ∧ s.Patient) ?_ fun s a t hs _ hstep =>
      HookedSocket.step_keeps hs hstep
    rintro s ⟨fiber, scheduler, rfl⟩
    exact ⟨⟨[], [], rfl, fun r hr => (by cases hr), fun h => absurd rfl h, rfl⟩,
      fun o ho => (by cases ho)⟩
  obtain ⟨⟨full, ends, heq, hfull, hends, harrived⟩, hpatient⟩ := hkeeps
  have hlengths : ∀ r ∈ full, r.2.length ≤ r.1 ∧ r.2.length < 2 ^ 31 := fun r hr =>
    ⟨(hfull r hr).2.1, (hfull r hr).2.2⟩
  let last : List (List UInt8) := if s.kernel.queue = [] then [] else [s.kernel.queue]
  have hlast : last.flatten = s.kernel.queue := by
    simp only [last]
    split
    · next hnil => rw [hnil, List.flatten_nil]
    · exact List.flatten_singleton
  have htail : PeerSocket.reads ends ⟨last, s.kernel.eof⟩ =
      some (ends.map fun _ => [], ⟨last, s.kernel.eof⟩) := by
    cases ends with
    | nil => rfl
    | cons n ends =>
      obtain ⟨heof, hqueue⟩ := hends (List.cons_ne_nil _ _)
      simp only [last, heof, hqueue, if_true]
      exact reads_end (n :: ends)
  refine ⟨hpatient, ⟨full.map Prod.snd ++ last, s.kernel.eof⟩, ⟨last, s.kernel.eof⟩, ?_, ?_, rfl,
    ?_, hlast⟩
  · intro g hg
    rcases List.mem_append.mp hg with hg | hg
    · obtain ⟨r, hr, rfl⟩ := List.mem_map.mp hg
      exact (hfull r hr).1
    · simp only [last] at hg
      split at hg
      · cases hg
      · next hne => rwa [List.mem_singleton.mp hg]
  · rw [PeerSocket.bytes, List.flatten_append, hlast, harrived]
  · have hreads := reads_append (reads_segments hlengths last s.kernel.eof) htail
    rw [heq]
    simpa [Function.comp_def] using hreads

/-- A read waits for its bytes, which come in time, and is interrupted once. -/
def waitingRead : List HookedAction :=
  [.enter true (some ⟨{ isInit := true, isSocket := true, sysNonblock := true }, 1000, -1⟩) 4 5,
    .call .empty, .hook .arm, .hook (.addEvent true), .hook .yieldToHold, .arrive [104, 105, 33],
    .hook (.other (.dispatch 5 { epollIn := true } true)), .hook .resume, .hook .cancel,
    .hook .check, .call .interrupted, .call (.take 2)]

theorem hooked_reads_stream_waiting :
    ∃ s, hookedMachine.run { hook := { fiber := 0, scheduler := 0 } } waitingRead = some s ∧
      s.outcomes = [⟨4, true, .bytes [104, 105]⟩] ∧
      ∃ sock t : PeerSocket, sock.Proper ∧ sock.bytes = [104, 105, 33] ∧ sock.closed = false ∧
        sock.reads [4] = some ([[104, 105]], t) ∧ t.bytes = [33] :=
  ⟨_, rfl, rfl, (hooked_reads_stream (.of_run waitingRead ⟨0, 0, rfl⟩ rfl)).2⟩

end Async

end CppServerFramework
