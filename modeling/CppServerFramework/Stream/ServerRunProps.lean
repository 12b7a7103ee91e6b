import CppServerFramework.Stream.ServerRun

/-!
# What a server leaves behind

A server whose `bind` and `start` are called at rest has one loop for each socket while it runs,
and none on a socket that is open once it has been stopped and cleaned up.
-/

namespace CppServerFramework.Stream

namespace AcceptLoop

variable {l : AcceptLoop} {sock : Nat}

theorem cancel_sock : (l.cancel sock).sock = l.sock := by
  rw [cancel]
  split <;> rfl

/-- A loop that is woken was waiting, and is in `accept` before and after. -/
theorem cancel_cases : l.cancel sock = l ∧ (l.sock = sock → l.waits = false) ∨
    l.waits = true ∧ (l.cancel sock).phase = .calling := by
  rw [cancel]
  split
  · next hwakes => exact .inr ⟨hwakes.2, rfl⟩
  · next hnot =>
    refine .inl ⟨rfl, fun hsock => ?_⟩
    simpa [hsock] using hnot

theorem phase_of_waits (h : l.waits = true) : ∃ b, l.phase = .waiting b := by
  cases hp : l.phase with
  | waiting b => exact ⟨b, rfl⟩
  | _ =>
    rw [waits, hp] at h
    cases h

/-- What does not tell a loop that waits from one that is about to call `accept_f`. -/
theorem cancel_same {β : Type} (f : AcceptPhase → β) (hf : ∀ b, f (.waiting b) = f .calling) :
    f (l.cancel sock).phase = f l.phase := by
  rcases l.cancel_cases with ⟨heq, -⟩ | ⟨hwaits, hcalling⟩
  · rw [heq]
  · obtain ⟨b, hb⟩ := phase_of_waits hwaits
    rw [hcalling, hb, hf]

end AcceptLoop

namespace ServerRun

variable {s s' : ServerRun} {i j : Nat} {answer : AcceptAnswer}

/-- No two loops that may go on have the same socket. -/
def Sole (loops : List AcceptLoop) : Prop :=
  ∀ (i j : Nat) (l m : AcceptLoop), loops[i]? = some l → loops[j]? = some m → l.live = true →
    m.live = true → l.sock = m.sock → i = j

/-- A clean-up has closed the sockets before `pos`, and none behind it. -/
structure Sweeps (socks closed : List Nat) (pos stop : Nat) : Prop where
  length : stop = socks.length
  done : ∀ x ∈ socks.take pos, x ∈ closed
  left : ∀ x ∈ socks.drop pos, x ∉ closed

/-- What holds of a clean-up that is under way. -/
def Sweeping (socks cancelled closed : List Nat) : CleanupPhase → Prop
  | .scheduled => True
  | .cancelling pos stop => Sweeps socks closed pos stop ∧ pos ≤ stop
  | .closing pos stop => Sweeps socks closed pos stop ∧ pos < stop
  | .releasing pos stop =>
    Sweeps socks closed pos stop ∧ pos < stop ∧ ∀ x, socks[pos]? = some x → x ∈ cancelled

/-- What every run keeps whose steps meet the condition. -/
structure Inv (s : ServerRun) : Prop where
  madeSocks : ∀ x ∈ s.server.socks, x < s.made
  madeClosed : ∀ x ∈ s.closed, x < s.made
  nodup : s.server.socks.Nodup
  once : s.closed.Nodup
  unclosed : (∀ c ∈ s.cleanups, c = .scheduled) → ∀ x ∈ s.server.socks, x ∉ s.closed
  sole : Sole s.loops
  serving : s.isStop = false → s.cleanups = [] ∧
    (∀ l ∈ s.loops, l.live = true → l.sock ∈ s.server.socks) ∧
    ∀ x ∈ s.server.socks, ∃ l ∈ s.loops, l.live = true ∧ l.sock = x
  one : ∀ (i j : Nat) (c d : CleanupPhase), s.cleanups[i]? = some c → s.cleanups[j]? = some d →
    c ≠ .scheduled → d ≠ .scheduled → i = j
  swept : ∀ c ∈ s.cleanups, Sweeping s.server.socks s.cancelled s.closed c
  cancelled : ∀ x ∈ s.closed, x ∈ s.cancelled
  waiting : ∀ l ∈ s.loops, l.phase = .waiting false → l.sock ∉ s.cancelled
  strayed : s.strayed = false
  owned : ∀ l ∈ s.loops, l.live = true → l.sock ∈ s.server.socks ∨ l.sock ∈ s.closed
  stopping : s.isStop = true → s.cleanups = [] → ∀ l ∈ s.loops, l.live = true → l.sock ∈ s.closed
  clients : ∀ c, s.accepted.count c = s.handed.count c + s.loops.countP (·.phase = .handing c)
  late : s.isStop = true → s.late + s.loops.countP AcceptLoop.inside ≤ s.stopped

theorem inv_init : Inv {} where
  madeSocks x hx := by cases hx
  madeClosed x hx := by cases hx
  nodup := .nil
  once := .nil
  unclosed _ x hx := by cases hx
  sole i j l m hl := by cases hl
  serving h := by cases h
  one i j c d hc := by cases hc
  swept c hc := by cases hc
  cancelled x hx := by cases hx
  waiting l hl := by cases hl
  strayed := rfl
  owned l hl := by cases hl
  stopping _ _ l hl := by cases hl
  clients c := rfl
  late _ := Nat.le_refl 0

/-! ## The calls -/

/-- The sockets that a call of `bind` makes. -/
theorem map_sock_attempts (made : Nat) (answers : List (Bool × Bool)) :
    (answers.mapIdx fun i r => (⟨(), made + i, r.1, r.2⟩ : Attempt Unit Nat)).map Attempt.sock =
      List.range' made answers.length := by
  apply List.ext_getElem
  · simp
  · intro n _ _
    simp

/-- `bind` adds the sockets it has made, or takes all away. -/
theorem bind_socks (answers : List (Bool × Bool)) :
    (s.bind answers).server.socks = s.server.socks ++ List.range' s.made answers.length ∨
      (s.bind answers).server.socks = [] := by
  simp only [bind, TcpServer.bind_eq]
  split
  · exact Or.inl (by rw [map_sock_attempts])
  · exact Or.inr rfl

theorem Inv.bind (h : s.Inv) (hrests : s.Rests) (answers : List (Bool × Bool)) :
    (s.bind answers).Inv := by
  obtain ⟨hstop, hcleanups, hended⟩ := hrests
  have hlive : ∀ {l}, l ∈ s.loops → ¬l.live = true := fun hl => by simp [hended _ hl]
  have hmade : s.made ≤ (s.bind answers).made := Nat.le_add_right _ _
  have hsocks : ∀ x ∈ (s.bind answers).server.socks,
      x ∈ s.server.socks ∨ s.made ≤ x ∧ x < s.made + answers.length := by
    intro x hx
    rcases bind_socks (s := s) answers with heq | heq
    · rw [heq, List.mem_append, List.mem_range'_1] at hx
      exact hx
    · rw [heq] at hx
      cases hx
  refine {
    madeSocks := fun x hx => ?_
    madeClosed := fun x hx => Nat.lt_of_lt_of_le (h.madeClosed x hx) hmade
    nodup := ?_
    once := h.once
    unclosed := fun _ x hx hclosed => ?_
    sole := h.sole
    serving := fun hrun => ?_
    one := h.one
    swept := fun c hc => ?_
    cancelled := h.cancelled
    waiting := h.waiting
    strayed := h.strayed
    owned := fun l hl hlv => absurd hlv (hlive hl)
    stopping := h.stopping
    clients := h.clients
    late := h.late }
  · rcases hsocks x hx with hold | hnew
    · exact Nat.lt_of_lt_of_le (h.madeSocks x hold) hmade
    · exact hnew.2
  · rcases bind_socks (s := s) answers with heq | heq
    · rw [heq, List.nodup_append]
      refine ⟨h.nodup, List.nodup_range', fun x hx y hy => ?_⟩
      have hlt := h.madeSocks x hx
      rw [List.mem_range'_1] at hy
      omega
    · rw [heq]
      exact .nil
  · rcases hsocks x hx with hold | hnew
    · exact h.unclosed (hcleanups ▸ fun c hc => by cases hc) x hold hclosed
    · exact absurd (h.madeClosed x hclosed) (Nat.not_lt.mpr hnew.1)
  · cases hstop.symm.trans hrun
  · change c ∈ s.cleanups at hc
    rw [hcleanups] at hc
    cases hc

/-- New loops for different sockets, beside those that have ended. -/
theorem sole_append {loops : List AcceptLoop} {socks : List Nat}
    (hended : ∀ {l}, l ∈ loops → ¬l.live = true) (hnodup : socks.Nodup) :
    Sole (loops ++ socks.map (AcceptLoop.mk · .testing)) := by
  have hnew : ∀ {i : Nat} {l : AcceptLoop},
      (loops ++ socks.map (AcceptLoop.mk · .testing))[i]? = some l → l.live = true →
      loops.length ≤ i ∧ socks[i - loops.length]? = some l.sock := by
    intro i l hl hlive
    rcases Nat.lt_or_ge i loops.length with hlt | hge
    · rw [List.getElem?_append_left hlt] at hl
      exact absurd hlive (hended (List.mem_of_getElem? hl))
    · rw [List.getElem?_append_right hge, List.getElem?_map] at hl
      obtain ⟨x, hx, rfl⟩ := Option.map_eq_some_iff.mp hl
      exact ⟨hge, hx⟩
  intro i j l m hl hm hlive hlive' heq
  obtain ⟨hi, hli⟩ := hnew hl hlive
  obtain ⟨hj, hmj⟩ := hnew hm hlive'
  have hlt := (List.getElem?_eq_some_iff.mp hli).1
  have hindex := (List.getElem?_inj hlt hnodup).mp (hli.trans (heq ▸ hmj.symm))
  omega

theorem Inv.start (h : s.Inv) (hrests : s.isStop = true → s.Rests) : s.start.Inv := by
  rw [ServerRun.start]
  cases hstop : s.isStop with
  | false => exact h
  | true =>
    obtain ⟨-, hcleanups, hended⟩ := hrests hstop
    simp only [Bool.not_true, Bool.false_eq_true, if_false]
    have hlive : ∀ {l}, l ∈ s.loops → ¬l.live = true := fun hl => by simp [hended _ hl]
    have hnew : ∀ {l}, l ∈ s.loops ++ s.server.socks.map (AcceptLoop.mk · .testing) →
        l.live = true → l.sock ∈ s.server.socks := by
      intro l hl hlv
      rcases List.mem_append.mp hl with hl | hl
      · exact absurd hlv (hlive hl)
      · obtain ⟨x, hx, rfl⟩ := List.mem_map.mp hl
        exact hx
    refine {
      madeSocks := h.madeSocks
      madeClosed := h.madeClosed
      nodup := h.nodup
      once := h.once
      unclosed := h.unclosed
      sole := sole_append hlive h.nodup
      serving := fun _ => ⟨hcleanups, fun l hl hlv => hnew hl hlv, fun x hx => ?_⟩
      one := h.one
      swept := h.swept
      cancelled := h.cancelled
      waiting := fun l hl hwaiting => ?_
      strayed := h.strayed
      owned := fun l hl hlv => Or.inl (hnew hl hlv)
      stopping := fun hrun => (by cases hrun)
      clients := fun c => ?_
      late := fun hrun => (by cases hrun) }
    · exact ⟨⟨x, .testing⟩, List.mem_append_right _ (List.mem_map_of_mem hx), rfl, rfl⟩
    · rcases List.mem_append.mp hl with hl | hl
      · exact h.waiting l hl hwaiting
      · obtain ⟨x, -, rfl⟩ := List.mem_map.mp hl
        cases hwaiting
    · have hnone : (s.server.socks.map (AcceptLoop.mk · .testing)).countP
          (·.phase = .handing c) = 0 := by
        rw [List.countP_eq_zero]
        intro l hl
        obtain ⟨x, -, rfl⟩ := List.mem_map.mp hl
        simp
      simp only [List.countP_append, hnone, Nat.add_zero]
      exact h.clients c

theorem Inv.stop (h : s.Inv) : s.stop.Inv := by
  have hmem : ∀ {c : CleanupPhase}, c ∈ s.stop.cleanups → c ∈ s.cleanups ∨ c = .scheduled :=
    fun hc => by simpa [ServerRun.stop] using hc
  have hold : ∀ {i : Nat} {c : CleanupPhase}, s.stop.cleanups[i]? = some c → c ≠ .scheduled →
      s.cleanups[i]? = some c := by
    intro i c hc hne
    change (s.cleanups ++ [.scheduled])[i]? = some c at hc
    rcases Nat.lt_or_ge i s.cleanups.length with hlt | hge
    · rwa [List.getElem?_append_left hlt] at hc
    · rw [List.getElem?_append_right hge] at hc
      exact absurd (List.mem_singleton.mp (List.mem_of_getElem? hc)) hne
  have hne : s.stop.cleanups ≠ [] := by simp [ServerRun.stop]
  exact {
    madeSocks := h.madeSocks
    madeClosed := h.madeClosed
    nodup := h.nodup
    once := h.once
    unclosed := fun hall => h.unclosed fun c hc => hall c (List.mem_append_left _ hc)
    sole := h.sole
    serving := fun hrun => (by cases hrun)
    one := fun i j c d hc hd hcne hdne => h.one i j c d (hold hc hcne) (hold hd hdne) hcne hdne
    swept := fun c hc => by
      rcases hmem hc with hc | rfl
      · exact h.swept c hc
      · trivial
    cancelled := h.cancelled
    waiting := h.waiting
    strayed := h.strayed
    owned := h.owned
    stopping := fun _ hnil => absurd hnil hne
    clients := h.clients
    late := fun _ => by
      simp only [ServerRun.stop]
      cases hstop : s.isStop with
      | true => exact h.late hstop
      | false =>
        simp only [Bool.false_eq_true, if_false, Nat.zero_add]
        exact List.countP_mono_left fun l _ hin => by
          simp only [AcceptLoop.inside, AcceptLoop.live, decide_eq_true_eq] at *
          exact hin.1 }

/-! ## The loops -/

/-- A step of a loop: it was one that may go on, and what is recorded follows its phase. -/
structure Moves (s s' : ServerRun) (i : Nat) (l : AcceptLoop) (phase : AcceptPhase) : Prop where
  loop : s.loops[i]? = some l
  live : l.live = true
  loops : s'.loops = s.loops.set i ⟨l.sock, phase⟩
  isStop : s'.isStop = s.isStop
  server : s'.server = s.server
  made : s'.made = s.made
  cancelled : s'.cancelled = s.cancelled
  closed : s'.closed = s.closed
  cleanups : s'.cleanups = s.cleanups
  strayed : s'.strayed = s.strayed
  stopped : s'.stopped = s.stopped

/-- No client is taken or handed over. -/
structure Same (s s' : ServerRun) : Prop where
  accepted : s'.accepted = s.accepted
  handed : s'.handed = s.handed
  late : s'.late = s.late

/-- The steps of a loop on `sock`. -/
inductive Turn (s s' : ServerRun) (sock : Nat) : AcceptPhase → AcceptPhase → Prop
  | tests : Same s s' → Turn s s' sock .testing (if s.isStop then .ended else .calling)
  | fails {p : AcceptPhase} : p = .calling ∨ p = .adding → Same s s' → Turn s s' sock p .testing
  | again : sock ∉ s.closed → Same s s' → Turn s s' sock .calling .adding
  | adds : sock ∉ s.closed → Same s s' →
    Turn s s' sock .adding (.waiting (s.cancelled.any (· = sock)))
  | wakes {b : Bool} : Same s s' → Turn s s' sock (.waiting b) .calling
  | takes {c : Nat} : sock ∉ s.closed → s'.accepted = c :: s.accepted → s'.handed = s.handed →
    s'.late = s.late → Turn s s' sock .calling (.handing c)
  | hands {c : Nat} : s'.accepted = s.accepted → s'.handed = c :: s.handed →
    s'.late = (if s.isStop then s.late + 1 else s.late) → Turn s s' sock (.handing c) .testing

/-- What a step of a loop does. -/
theorem accept_cases (hs : s.accept i answer = some s') :
    ∃ sock p phase, Moves s s' i ⟨sock, p⟩ phase ∧ Turn s s' sock p phase := by
  obtain ⟨⟨sock, p⟩, hl, hnext⟩ := Option.bind_eq_some_iff.mp hs
  obtain ⟨phase, hphase, rfl⟩ := Option.map_eq_some_iff.mp hnext
  refine ⟨sock, p, phase, ?_⟩
  have hopen : ∀ {q : AcceptPhase},
      (if s.closed.any (· = sock) then none else some q) = some phase →
        q = phase ∧ sock ∉ s.closed := by
    intro q hq
    split at hq
    · cases hq
    · next hany =>
      refine ⟨Option.some.inj hq, ?_⟩
      simpa using hany
  cases p with
  | testing =>
    have hp : (if s.isStop then AcceptPhase.ended else .calling) = phase := by
      cases answer <;> exact Option.some.inj hphase
    subst hp
    refine ⟨?_, ?_⟩
    · cases s with
      | mk isStop => cases isStop <;> exact ⟨hl, rfl, rfl, rfl, rfl, rfl, rfl, rfl, rfl, rfl, rfl⟩
    · refine .tests ?_
      cases s with
      | mk isStop => cases isStop <;> exact ⟨rfl, rfl, rfl⟩
  | calling =>
    cases answer with
    | client c =>
      obtain ⟨rfl, hnot⟩ := hopen hphase
      exact ⟨⟨hl, rfl, rfl, rfl, rfl, rfl, rfl, rfl, rfl, rfl, rfl⟩, .takes hnot rfl rfl rfl⟩
    | again =>
      obtain ⟨rfl, hnot⟩ := hopen hphase
      exact ⟨⟨hl, rfl, rfl, rfl, rfl, rfl, rfl, rfl, rfl, rfl, rfl⟩, .again hnot ⟨rfl, rfl, rfl⟩⟩
    | fails =>
      cases hphase
      exact ⟨⟨hl, rfl, rfl, rfl, rfl, rfl, rfl, rfl, rfl, rfl, rfl⟩,
        .fails (.inl rfl) ⟨rfl, rfl, rfl⟩⟩
    | event => cases hphase
  | adding =>
    cases answer with
    | event =>
      obtain ⟨rfl, hnot⟩ := hopen hphase
      exact ⟨⟨hl, rfl, rfl, rfl, rfl, rfl, rfl, rfl, rfl, rfl, rfl⟩, .adds hnot ⟨rfl, rfl, rfl⟩⟩
    | fails =>
      cases hphase
      exact ⟨⟨hl, rfl, rfl, rfl, rfl, rfl, rfl, rfl, rfl, rfl, rfl⟩,
        .fails (.inr rfl) ⟨rfl, rfl, rfl⟩⟩
    | client c => cases hphase
    | again => cases hphase
  | waiting b =>
    cases answer with
    | event =>
      cases hphase
      exact ⟨⟨hl, rfl, rfl, rfl, rfl, rfl, rfl, rfl, rfl, rfl, rfl⟩, .wakes ⟨rfl, rfl, rfl⟩⟩
    | client c => cases hphase
    | again => cases hphase
    | fails => cases hphase
  | handing c =>
    have hp : AcceptPhase.testing = phase := by
      cases answer <;> exact Option.some.inj hphase
    subst hp
    exact ⟨⟨hl, rfl, rfl, rfl, rfl, rfl, rfl, rfl, rfl, rfl, rfl⟩, .hands rfl rfl rfl⟩
  | ended => cases answer <;> cases hphase

namespace Moves

variable {l : AcceptLoop} {phase : AcceptPhase}

theorem lt (h : Moves s s' i l phase) : i < s.loops.length :=
  (List.getElem?_eq_some_iff.mp h.loop).1

/-- A loop afterwards was there before, with the same socket, and could go on if it still can. -/
theorem back (h : Moves s s' i l phase) {k : Nat} {m : AcceptLoop} (hm : s'.loops[k]? = some m) :
    ∃ m₀, s.loops[k]? = some m₀ ∧ m.sock = m₀.sock ∧ (m.live = true → m₀.live = true) := by
  rw [h.loops, List.getElem?_set] at hm
  split at hm
  · next heq =>
    split at hm <;> cases hm
    exact ⟨l, heq ▸ h.loop, rfl, fun _ => h.live⟩
  · exact ⟨m, hm, rfl, id⟩

theorem back_mem (h : Moves s s' i l phase) {m : AcceptLoop} (hm : m ∈ s'.loops) :
    ∃ m₀ ∈ s.loops, m.sock = m₀.sock ∧ (m.live = true → m₀.live = true) := by
  obtain ⟨k, hk⟩ := List.mem_iff_getElem?.mp hm
  obtain ⟨m₀, hm₀, hsock, hlive⟩ := h.back hk
  exact ⟨m₀, List.mem_of_getElem? hm₀, hsock, hlive⟩

/-- A loop that does not end is still there. -/
theorem forth (h : Moves s s' i l phase) (hphase : phase ≠ .ended) {m : AcceptLoop}
    (hm : m ∈ s.loops) (hlive : m.live = true) :
    ∃ m' ∈ s'.loops, m'.live = true ∧ m'.sock = m.sock := by
  obtain ⟨k, hk⟩ := List.mem_iff_getElem?.mp hm
  by_cases heq : i = k
  · subst heq
    cases h.loop.symm.trans hk
    refine ⟨⟨l.sock, phase⟩, ?_, by simpa [AcceptLoop.live] using hphase, rfl⟩
    rw [h.loops]
    exact List.mem_set h.lt _
  · refine ⟨m, List.mem_iff_getElem?.mpr ⟨k, ?_⟩, hlive, rfl⟩
    rw [h.loops, List.getElem?_set_ne heq, hk]

/-- How a number of loops changes. -/
theorem countP (h : Moves s s' i l phase) (p : AcceptLoop → Bool) :
    s'.loops.countP p + (if p l then 1 else 0) =
      s.loops.countP p + if p ⟨l.sock, phase⟩ then 1 else 0 := by
  obtain ⟨hlt, hl⟩ := List.getElem?_eq_some_iff.mp h.loop
  rw [h.loops, List.countP_set hlt, hl]
  have hpos : p l = true → 0 < s.loops.countP p := fun hp =>
    List.countP_pos_iff.mpr ⟨l, List.mem_of_getElem? h.loop, hp⟩
  split
  · next hp =>
    have := hpos hp
    omega
  · omega

end Moves

/-- A client that has been taken is handed over, or with the loop that hands it over. -/
theorem Inv.clients_turn (h : s.Inv) {sock : Nat} {p phase : AcceptPhase}
    (hmoves : Moves s s' i ⟨sock, p⟩ phase) (hturn : Turn s s' sock p phase) (c : Nat) :
    s'.accepted.count c = s'.handed.count c + s'.loops.countP (·.phase = .handing c) := by
  have hcount := hmoves.countP (·.phase = .handing c)
  have hbefore := h.clients c
  cases hturn with
  | tests hsame =>
    rw [hsame.accepted, hsame.handed]
    cases hstop : s.isStop <;> simp [hstop] at hcount <;> omega
  | fails hp hsame =>
    rw [hsame.accepted, hsame.handed]
    rcases hp with rfl | rfl <;> simp at hcount <;> omega
  | again _ hsame | adds _ hsame | wakes hsame =>
    rw [hsame.accepted, hsame.handed]
    simp at hcount
    omega
  | @takes d _ ha hh _ | @hands d ha hh _ =>
    rw [ha, hh]
    simp only [List.count_cons] at hcount ⊢
    by_cases hd : d = c <;> simp [hd] at hcount ⊢ <;> omega

/-- A loop that has passed the test of `m_isStop` hands over at most one client more. -/
theorem Inv.late_turn (h : s.Inv) {sock : Nat} {p phase : AcceptPhase}
    (hmoves : Moves s s' i ⟨sock, p⟩ phase) (hturn : Turn s s' sock p phase)
    (hstop : s'.isStop = true) : s'.late + s'.loops.countP AcceptLoop.inside ≤ s'.stopped := by
  rw [hmoves.isStop] at hstop
  rw [hmoves.stopped]
  have hcount := hmoves.countP AcceptLoop.inside
  have hbefore := h.late hstop
  cases hturn with
  | tests hsame =>
    rw [hsame.late]
    simp [AcceptLoop.inside, hstop] at hcount ⊢
    omega
  | fails hp hsame =>
    rw [hsame.late]
    rcases hp with rfl | rfl <;> simp [AcceptLoop.inside] at hcount ⊢ <;> omega
  | again _ hsame | adds _ hsame | wakes hsame =>
    rw [hsame.late]
    simp [AcceptLoop.inside] at hcount ⊢
    omega
  | takes _ _ _ hl | hands _ _ hl =>
    rw [hl]
    simp [AcceptLoop.inside, hstop] at hcount ⊢
    omega

theorem Inv.accept (h : s.Inv) (hs : s.accept i answer = some s') : s'.Inv := by
  obtain ⟨sock, p, phase, hmoves, hturn⟩ := accept_cases hs
  refine {
    madeSocks := fun x hx => ?_
    madeClosed := fun x hx => ?_
    nodup := hmoves.server ▸ h.nodup
    once := hmoves.closed ▸ h.once
    unclosed := fun hall x hx => ?_
    sole := fun a b m n hm hn hlm hln heq => ?_
    serving := fun hrun => ?_
    one := hmoves.cleanups ▸ h.one
    swept := fun c hc => ?_
    cancelled := hmoves.closed ▸ hmoves.cancelled ▸ h.cancelled
    waiting := fun m hm hwaiting => ?_
    strayed := hmoves.strayed.trans h.strayed
    owned := fun m hm hlive => ?_
    stopping := fun hstop hnil m hm hlive => ?_
    clients := h.clients_turn hmoves hturn
    late := h.late_turn hmoves hturn }
  · rw [hmoves.made]
    exact h.madeSocks x (hmoves.server ▸ hx)
  · rw [hmoves.made]
    exact h.madeClosed x (hmoves.closed ▸ hx)
  · rw [hmoves.closed]
    exact h.unclosed (hmoves.cleanups ▸ hall) x (hmoves.server ▸ hx)
  · obtain ⟨m₀, hm₀, hsm, hlm₀⟩ := hmoves.back hm
    obtain ⟨n₀, hn₀, hsn, hln₀⟩ := hmoves.back hn
    exact h.sole a b m₀ n₀ hm₀ hn₀ (hlm₀ hlm) (hln₀ hln) (hsm.symm.trans (heq.trans hsn))
  · rw [hmoves.isStop] at hrun
    obtain ⟨hnil, hmem, hloop⟩ := h.serving hrun
    rw [hmoves.cleanups, hmoves.server]
    refine ⟨hnil, fun m hm hlive => ?_, fun x hx => ?_⟩
    · obtain ⟨m₀, hm₀, hsock, hlive₀⟩ := hmoves.back_mem hm
      exact hsock ▸ hmem m₀ hm₀ (hlive₀ hlive)
    · obtain ⟨m, hm, hlive, rfl⟩ := hloop x hx
      refine hmoves.forth ?_ hm hlive
      cases hturn <;> simp [hrun]
  · rw [hmoves.server, hmoves.cancelled, hmoves.closed]
    exact h.swept c (hmoves.cleanups ▸ hc)
  · rw [hmoves.cancelled]
    rw [hmoves.loops] at hm
    rcases List.mem_or_eq_of_mem_set hm with hm | rfl
    · exact h.waiting m hm hwaiting
    · cases hturn with
      | adds =>
        intro hmem
        have hany : s.cancelled.any (· = sock) = true :=
          List.any_eq_true.mpr ⟨sock, hmem, decide_eq_true rfl⟩
        rw [hany] at hwaiting
        cases hwaiting
      | tests => cases hstop : s.isStop <;> simp [hstop] at hwaiting
      | _ => cases hwaiting
  · obtain ⟨m₀, hm₀, hsock, hlive₀⟩ := hmoves.back_mem hm
    rw [hmoves.server, hmoves.closed, hsock]
    exact h.owned m₀ hm₀ (hlive₀ hlive)
  · obtain ⟨m₀, hm₀, hsock, hlive₀⟩ := hmoves.back_mem hm
    rw [hmoves.closed, hsock]
    exact h.stopping (hmoves.isStop ▸ hstop) (hmoves.cleanups ▸ hnil) m₀ hm₀ (hlive₀ hlive)

/-! ## The clean-ups -/

/-- `cancelAll` -/
theorem Inv.wake (h : s.Inv) (sock : Nat) :
    { s with loops := s.loops.map (·.cancel sock) : ServerRun }.Inv := by
  have hlive : ∀ l : AcceptLoop, (l.cancel sock).live = l.live := fun l =>
    l.cancel_same (fun p => decide (p ≠ .ended)) fun _ => rfl
  have hcount : ∀ p : AcceptPhase → Bool, (∀ b, p (.waiting b) = p .calling) →
      (s.loops.map (·.cancel sock)).countP (fun l => p l.phase) =
        s.loops.countP fun l => p l.phase := by
    intro p hp
    rw [List.countP_map]
    exact List.countP_congr fun l _ => by
      rw [Function.comp_apply, l.cancel_same p hp]
  have hback : ∀ m ∈ s.loops.map (·.cancel sock), ∃ l ∈ s.loops, m.sock = l.sock ∧
      m.live = l.live := by
    intro m hm
    obtain ⟨l, hl, rfl⟩ := List.mem_map.mp hm
    exact ⟨l, hl, l.cancel_sock, hlive l⟩
  exact { h with
    sole := fun i j l m hl hm hlivel hlivem hsock => by
      rw [List.getElem?_map] at hl hm
      obtain ⟨l₀, hl₀, rfl⟩ := Option.map_eq_some_iff.mp hl
      obtain ⟨m₀, hm₀, rfl⟩ := Option.map_eq_some_iff.mp hm
      rw [hlive] at hlivel hlivem
      rw [l₀.cancel_sock, m₀.cancel_sock] at hsock
      exact h.sole i j l₀ m₀ hl₀ hm₀ hlivel hlivem hsock
    serving := fun hrun => by
      obtain ⟨hnil, hmem, hloop⟩ := h.serving hrun
      refine ⟨hnil, fun m hm hlivem => ?_, fun x hx => ?_⟩
      · obtain ⟨l, hl, hsock, hsame⟩ := hback m hm
        exact hsock ▸ hmem l hl (hsame ▸ hlivem)
      · obtain ⟨l, hl, hlivel, rfl⟩ := hloop x hx
        exact ⟨l.cancel sock, List.mem_map_of_mem hl, (hlive l).trans hlivel, l.cancel_sock⟩
    waiting := fun m hm hwaiting => by
      obtain ⟨l, hl, rfl⟩ := List.mem_map.mp hm
      rcases l.cancel_cases with ⟨heq, -⟩ | ⟨-, hcalling⟩
      · rw [heq] at hwaiting ⊢
        exact h.waiting l hl hwaiting
      · rw [hcalling] at hwaiting
        cases hwaiting
    owned := fun m hm hlivem => by
      obtain ⟨l, hl, hsock, hsame⟩ := hback m hm
      exact hsock ▸ h.owned l hl (hsame ▸ hlivem)
    stopping := fun hstop hnil m hm hlivem => by
      obtain ⟨l, hl, hsock, hsame⟩ := hback m hm
      exact hsock ▸ h.stopping hstop hnil l hl (hsame ▸ hlivem)
    clients := fun c => by
      rw [hcount (fun p => decide (p = .handing c)) fun _ => rfl]
      exact h.clients c
    late := fun hstop => by
      have hsame := hcount (fun p => decide (p ≠ .ended ∧ p ≠ .testing)) fun _ => rfl
      exact Nat.le_trans (Nat.le_of_eq (congrArg (s.late + ·) hsame)) (h.late hstop) }

/-- A clean-up takes a step, while all others have still to begin. -/
theorem Inv.advance (h : s.Inv) {c : CleanupPhase} {cancelled closed : List Nat}
    (hj : j < s.cleanups.length)
    (hothers : ∀ (i : Nat) (d : CleanupPhase), i ≠ j → s.cleanups[i]? = some d → d = .scheduled)
    (hc : c ≠ .scheduled) (hsweeps : Sweeping s.server.socks cancelled closed c)
    (hkept : ∀ x ∈ s.closed, x ∈ closed) (hmade : ∀ x ∈ closed, x < s.made) (honce : closed.Nodup)
    (hcancelled : ∀ x ∈ closed, x ∈ cancelled)
    (hwaiting : ∀ l ∈ s.loops, l.phase = .waiting false → l.sock ∉ cancelled) :
    { s with cancelled, closed, cleanups := s.cleanups.set j c }.Inv := by
  have hmem : c ∈ s.cleanups.set j c := List.mem_set hj c
  have hrunning : ∀ (i : Nat) (d : CleanupPhase), (s.cleanups.set j c)[i]? = some d →
      d ≠ .scheduled → i = j := by
    intro i d hd hne
    by_contra hij
    rw [List.getElem?_set_ne (Ne.symm hij)] at hd
    exact hne (hothers i d hij hd)
  exact { h with
    madeClosed := hmade
    once := honce
    unclosed := fun hall => absurd (hall c hmem) hc
    serving := fun hrun => by
      rw [(h.serving hrun).1] at hj
      cases hj
    one := fun i k d e hd he hdne hene => (hrunning i d hd hdne).trans (hrunning k e he hene).symm
    swept := fun d hd => by
      rcases List.mem_or_eq_of_mem_set hd with hold | rfl
      · by_cases hsched : d = .scheduled
        · rw [hsched]
          trivial
        · obtain ⟨i, hi⟩ := List.mem_iff_getElem?.mp hd
          obtain rfl := hrunning i d hi hsched
          rw [List.getElem?_set_self hj] at hi
          cases hi
          exact hsweeps
      · exact hsweeps
    cancelled := hcancelled
    waiting := hwaiting
    owned := fun l hl hlive => (h.owned l hl hlive).imp_right (hkept _)
    stopping := fun _ hnil => absurd hnil (List.ne_nil_of_mem hmem) }

/-- The others have still to begin while one is under way. -/
theorem Inv.others (h : s.Inv) {c : CleanupPhase} (hj : s.cleanups[j]? = some c)
    (hc : c ≠ .scheduled) (i : Nat) (d : CleanupPhase) (hij : i ≠ j)
    (hd : s.cleanups[i]? = some d) : d = .scheduled := by
  by_contra hne
  exact hij (h.one i j d c hd hj hne hc)

theorem Inv.beginCleanup (h : s.Inv) (hguard : ∀ c ∈ s.cleanups, c = .scheduled)
    (hj : s.cleanups[j]? = some .scheduled) :
    { s with
      cleanups := s.cleanups.set j (.cancelling 0 s.server.socks.length) : ServerRun }.Inv := by
  refine h.advance (List.getElem?_eq_some_iff.mp hj).1
    (fun i d _ hd => hguard d (List.mem_of_getElem? hd)) (by simp)
    ⟨⟨rfl, fun x hx => (by cases hx), fun x hx => ?_⟩, Nat.zero_le _⟩ (fun _ hx => hx) h.madeClosed
    h.once h.cancelled h.waiting
  exact h.unclosed hguard x hx

/-- The element at which a clean-up stands is there. -/
theorem Sweeps.get {socks closed : List Nat} {pos stop : Nat} (h : Sweeps socks closed pos stop)
    (hlt : pos < stop) : ∃ sock, socks[pos]? = some sock :=
  ⟨_, List.getElem?_eq_getElem (h.length ▸ hlt)⟩

theorem Inv.cancelSock (h : s.Inv) {pos stop : Nat}
    (hj : s.cleanups[j]? = some (.cancelling pos stop)) (hlt : pos < stop) :
    (s.cancelSock j pos stop).Inv := by
  obtain ⟨hsweeps, -⟩ := h.swept _ (List.mem_of_getElem? hj)
  obtain ⟨sock, hsock⟩ := hsweeps.get hlt
  rw [ServerRun.cancelSock, hsock]
  exact (h.wake sock).advance (List.getElem?_eq_some_iff.mp hj).1
    (h.others hj (by simp)) (by simp) ⟨hsweeps, hlt⟩ (fun _ hx => hx) h.madeClosed h.once
    h.cancelled (h.wake sock).waiting

/-- Behind the last `cancelAll` no loop waits for an event that it has added before. -/
theorem Inv.hookClose (h : s.Inv) {pos stop : Nat}
    (hj : s.cleanups[j]? = some (.closing pos stop)) : (s.hookClose j pos stop).Inv := by
  obtain ⟨hsweeps, hlt⟩ := h.swept _ (List.mem_of_getElem? hj)
  obtain ⟨sock, hsock⟩ := hsweeps.get hlt
  rw [ServerRun.hookClose, hsock]
  refine (h.wake sock).advance (List.getElem?_eq_some_iff.mp hj).1 (h.others hj (by simp)) (by simp)
    ⟨hsweeps, hlt, fun x hx => ?_⟩ (fun _ hx => hx) h.madeClosed h.once
    (fun x hx => List.mem_cons_of_mem _ (h.cancelled x hx)) fun m hm hwaiting hmem => ?_
  · cases hsock.symm.trans hx
    exact List.mem_cons_self
  · rcases List.mem_cons.mp hmem with heq | hmem
    · obtain ⟨l, hl, rfl⟩ := List.mem_map.mp hm
      rcases l.cancel_cases with ⟨hsame, hnot⟩ | ⟨-, hcalling⟩
      · rw [hsame] at hwaiting heq
        have hwaits := hnot heq
        rw [AcceptLoop.waits, hwaiting] at hwaits
        cases hwaits
      · rw [hcalling] at hwaiting
        cases hwaiting
    · exact (h.wake sock).waiting m hm hwaiting hmem

theorem Inv.closeSock (h : s.Inv) {pos stop : Nat}
    (hj : s.cleanups[j]? = some (.releasing pos stop)) : (s.closeSock j pos stop).Inv := by
  obtain ⟨hsweeps, hlt, hcancelled⟩ := h.swept _ (List.mem_of_getElem? hj)
  obtain ⟨sock, hsock⟩ := hsweeps.get hlt
  obtain ⟨hpos, hget⟩ := List.getElem?_eq_some_iff.mp hsock
  have hdrop : s.server.socks.drop pos = sock :: s.server.socks.drop (pos + 1) := by
    rw [List.drop_eq_getElem_cons hpos, hget]
  have hnot : sock ∉ s.closed := hsweeps.left sock (hdrop ▸ List.mem_cons_self)
  have hbehind : sock ∉ s.server.socks.drop (pos + 1) := by
    have hnodup : (s.server.socks.drop pos).Nodup := h.nodup.sublist (List.drop_sublist _ _)
    rw [hdrop] at hnodup
    exact (List.nodup_cons.mp hnodup).1
  rw [ServerRun.closeSock, hsock]
  refine h.advance (List.getElem?_eq_some_iff.mp hj).1 (h.others hj (by simp)) (by simp)
    ⟨⟨hsweeps.length, fun x hx => ?_, fun x hx hmem => ?_⟩, hlt⟩
    (fun x hx => List.mem_cons_of_mem _ hx) (fun x hx => ?_) (List.nodup_cons.mpr ⟨hnot, h.once⟩)
    (fun x hx => ?_) h.waiting
  · rw [List.take_add_one, hsock] at hx
    rcases List.mem_append.mp hx with hx | hx
    · exact List.mem_cons_of_mem _ (hsweeps.done x hx)
    · rw [List.mem_singleton.mp hx]
      exact List.mem_cons_self
  · rcases List.mem_cons.mp hmem with rfl | hmem
    · exact hbehind hx
    · exact hsweeps.left x (hdrop ▸ List.mem_cons_of_mem _ hx) hmem
  · rcases List.mem_cons.mp hx with rfl | hx
    · exact h.madeSocks x (List.mem_of_getElem? hsock)
    · exact h.madeClosed x hx
  · rcases List.mem_cons.mp hx with rfl | hx
    · exact hcancelled x hsock
    · exact h.cancelled x hx

theorem Inv.endCleanup (h : s.Inv) {pos stop : Nat}
    (hj : s.cleanups[j]? = some (.cancelling pos stop)) (hle : ¬pos < stop) :
    (s.endCleanup j).Inv := by
  have hmem : .cancelling pos stop ∈ s.cleanups := List.mem_of_getElem? hj
  obtain ⟨hsweeps, -⟩ := h.swept _ hmem
  have hall : s.server.socks.take pos = s.server.socks :=
    List.take_of_length_le (hsweeps.length ▸ Nat.not_lt.mp hle)
  have hclosed : ∀ l ∈ s.loops, l.live = true → l.sock ∈ s.closed := fun l hl hlive =>
    (h.owned l hl hlive).elim (fun hsock => hsweeps.done _ (hall.symm ▸ hsock)) id
  have hrest : ∀ c ∈ s.cleanups.eraseIdx j, c = .scheduled := fun c hc => by
    obtain ⟨i, hij, hi⟩ := List.mem_eraseIdx_iff_getElem?.mp hc
    exact h.others hj (by simp) i c hij hi
  exact { h with
    madeSocks := fun x hx => (by cases hx)
    nodup := .nil
    unclosed := fun _ x hx => (by cases hx)
    serving := fun hrun => absurd (h.serving hrun).1 (List.ne_nil_of_mem hmem)
    one := fun i k c d hc _ hne => absurd (hrest c (List.mem_of_getElem? hc)) hne
    swept := fun c hc => by
      rw [hrest c hc]
      trivial
    owned := fun l hl hlive => Or.inr (hclosed l hl hlive)
    stopping := fun _ _ => hclosed }

theorem Inv.step {a : ServerAction} (h : s.Inv) (hguard : AtRest s a) (hs : s.step a = some s') :
    s'.Inv := by
  cases a with
  | bind answers =>
    cases hs
    exact h.bind hguard answers
  | start =>
    cases hs
    exact h.start hguard
  | stop =>
    cases hs
    exact h.stop
  | accept i answer => exact h.accept hs
  | beginCleanup j =>
    simp only [ServerRun.step] at hs
    split at hs <;> cases hs
    next hj => exact h.beginCleanup hguard hj
  | cancelSock j =>
    simp only [ServerRun.step] at hs
    split at hs
    · next hj =>
      split at hs <;> cases hs
      next hlt => exact h.cancelSock hj hlt
    · cases hs
  | hookClose j =>
    simp only [ServerRun.step] at hs
    split at hs <;> cases hs
    next hj => exact h.hookClose hj
  | closeSock j =>
    simp only [ServerRun.step] at hs
    split at hs <;> cases hs
    next hj => exact h.closeSock hj
  | endCleanup j =>
    simp only [ServerRun.step] at hs
    split at hs
    · next hj =>
      split at hs <;> cases hs
      next hle => exact h.endCleanup hj hle
    · cases hs

/-! ## Every run -/

/-- The steps that the loops of a stopped server have left at most. -/
def remaining (s : ServerRun) : Nat :=
  s.loops.countP AcceptLoop.live + s.loops.countP AcceptLoop.inside +
    s.loops.countP AcceptLoop.waits

/-- While the server runs, each of its sockets is open and has one loop.  Every client is handed
    over once, at most one for each loop once `m_isStop` is set.  A clean-up uses no element that
    has been cleared, and closes each socket once.  Behind the clean-up every loop that is left has
    a closed socket and comes nearer its end with each step; it can go on, unless it waits for an
    event that it has added between the last `cancelAll` for its socket and `close_f`. -/
structure Sound (s : ServerRun) : Prop where
  sole : Sole s.loops
  serving : s.isStop = false → (∀ l ∈ s.loops, l.live = true → l.sock ∈ s.server.socks) ∧
    ∀ x ∈ s.server.socks, x ∉ s.closed ∧ ∃ l ∈ s.loops, l.live = true ∧ l.sock = x
  clients : ∀ c, s.accepted.count c = s.handed.count c + s.loops.countP (·.phase = .handing c)
  late : s.isStop = true → s.late ≤ s.stopped
  strayed : s.strayed = false
  once : s.closed.Nodup
  closed : s.isStop = true → s.cleanups = [] → ∀ l ∈ s.loops, l.live = true → l.sock ∈ s.closed
  going : ∀ (i : Nat) (l : AcceptLoop), s.loops[i]? = some l → l.live = true →
    l.waits = false → (s.accept i .fails).isSome = true
  waiting : ∀ l ∈ s.loops, l.sock ∈ s.closed → l.waits = true → l.phase = .waiting true
  ending : s.isStop = true → s.cleanups = [] → ∀ i answer s', s.accept i answer = some s' →
    s'.remaining < s.remaining

theorem Inv.ending (h : s.Inv) (hstop : s.isStop = true) (hnil : s.cleanups = [])
    (hs : s.accept i answer = some s') : s'.remaining < s.remaining := by
  obtain ⟨sock, p, phase, hmoves, hturn⟩ := accept_cases hs
  have hclosed := h.stopping hstop hnil _ (List.mem_of_getElem? hmoves.loop) hmoves.live
  have hlive := hmoves.countP AcceptLoop.live
  have hinside := hmoves.countP AcceptLoop.inside
  have hwaits := hmoves.countP AcceptLoop.waits
  rw [remaining, remaining]
  cases hturn with
  | tests =>
    simp [AcceptLoop.live, AcceptLoop.inside, AcceptLoop.waits, AcceptPhase.waits, hstop]
      at hlive hinside hwaits
    omega
  | fails hp =>
    rcases hp with rfl | rfl <;>
      simp [AcceptLoop.live, AcceptLoop.inside, AcceptLoop.waits, AcceptPhase.waits]
        at hlive hinside hwaits <;>
      omega
  | again hopen | adds hopen | takes hopen => exact absurd hclosed hopen
  | wakes | hands =>
    simp [AcceptLoop.live, AcceptLoop.inside, AcceptLoop.waits, AcceptPhase.waits]
      at hlive hinside hwaits
    omega

end ServerRun

end CppServerFramework.Stream
