import CppServerFramework.Socket.AsyncSocket

/-!
# Who has which descriptor

In every run in which the methods of one object follow one another, `accept` aside, each open
descriptor is that of one socket, and no other number is ever closed.
-/

namespace CppServerFramework.Async.FdManager

/-- Every context that is entered is that of an open socket, and no two numbers share one. -/
structure Sound (m : FdManager) : Prop where
  size : 64 ≤ m.datas.length ∧ m.datas.length < 2 ^ 31
  entered : ∀ fd ptr, m.entry fd = some ptr → ∃ o, m.objects[ptr]? = some o ∧
    o.ctx.isSocket = true ∧ o.ctx.isClosed = false
  single : ∀ fd fd' ptr, m.entry fd = some ptr → m.entry fd' = some ptr → fd = fd'

variable {m : FdManager} {fd : Nat}

theorem Sound.initial : Sound {} where
  size := by decide
  entered fd ptr he := by
    have hnone : ({} : FdManager).entry fd = none := by
      rw [entry, List.getElem?_replicate]
      split <;> rfl
    rw [hnone] at he
    cases he
  single fd fd' ptr he := by
    have hnone : ({} : FdManager).entry fd = none := by
      rw [entry, List.getElem?_replicate]
      split <;> rfl
    rw [hnone] at he
    cases he

theorem Sound.create (h : m.Sound) (hfd : fd * 3 / 2 < 2 ^ 31) : (m.create fd .ofSocket).Sound := by
  have hentry := entry_create (o := .ofSocket) h.size hfd
  have hlt : ∀ {fd' ptr}, m.entry fd' = some ptr → ptr < m.objects.length := fun he => by
    obtain ⟨o, ho, -⟩ := h.entered _ _ he
    exact (List.getElem?_eq_some_iff.mp ho).1
  have hobjects : (m.create fd .ofSocket).objects = m.objects ++ [.ofSocket] := rfl
  refine ⟨?_, fun fd' ptr he => ?_, fun fd₁ fd₂ ptr h₁ h₂ => ?_⟩
  · rw [length_create]
    exact (createSize_spec h.size hfd).2
  · rw [hentry] at he
    rw [hobjects]
    split at he
    · cases he
      exact ⟨_, List.getElem?_concat_length, rfl, rfl⟩
    · obtain ⟨o, ho, hctx⟩ := h.entered fd' ptr he
      exact ⟨o, (List.getElem?_append_left (hlt he)).trans ho, hctx⟩
  · rw [hentry] at h₁ h₂
    split at h₁ <;> split at h₂
    · rename_i e₁ e₂
      rw [e₁, e₂]
    · cases h₁
      exact absurd (hlt h₂) (Nat.lt_irrefl _)
    · cases h₂
      exact absurd (hlt h₁) (Nat.lt_irrefl _)
    · exact h.single fd₁ fd₂ ptr h₁ h₂

theorem Sound.getSocket (h : m.Sound) (hfd : fd * 3 / 2 < 2 ^ 31) : (m.getSocket fd).Sound := by
  rw [FdManager.getSocket]
  split
  · exact h.create hfd
  · exact h

/-- What `get(fd, true)` leaves is found. -/
theorem Sound.find_getSocket (h : m.Sound) (hfd : fd * 3 / 2 < 2 ^ 31) :
    ∃ o, (m.getSocket fd).find fd = some o ∧ o.ctx.isSocket = true ∧ o.ctx.isClosed = false := by
  have hsound := h.getSocket hfd
  suffices hentry : ((m.getSocket fd).entry fd).isSome by
    obtain ⟨ptr, he⟩ := Option.isSome_iff_exists.mp hentry
    obtain ⟨o, ho, hctx⟩ := hsound.entered fd ptr he
    exact ⟨o, by rw [find, he, Option.bind_some, ho], hctx⟩
  cases he : m.entry fd with
  | none =>
    rw [FdManager.getSocket, check_of_none he, entry_create h.size hfd, if_pos rfl]
    rfl
  | some ptr =>
    have hcheck : (m.check fd true).1 = .returns (some ptr) := by
      rw [check]
      split
      · rename_i hshort
        rw [tooShort_iff h.size.2] at hshort
        rw [entry, List.getElem?_eq_none hshort] at he
        cases he
      · simp [he]
    rw [FdManager.getSocket, hcheck, he]
    rfl

theorem Sound.drop (h : m.Sound) : (m.drop fd).Sound := by
  rw [FdManager.drop]
  split
  · rename_i ptr he
    have hentry : ∀ fd', ((m.modify ptr (·.close)).del fd).entry fd' =
        if fd' = fd then none else m.entry fd' := entry_del h.size.2
    have hobjects : ((m.modify ptr (·.close)).del fd).objects = m.objects.modify ptr (·.close) := by
      rw [del]
      split <;> rfl
    have hold : ∀ {fd' ptr'}, ((m.modify ptr (·.close)).del fd).entry fd' = some ptr' →
        fd' ≠ fd ∧ m.entry fd' = some ptr' := by
      intro fd' ptr' he'
      rw [hentry] at he'
      split at he'
      · cases he'
      · rename_i hne
        exact ⟨hne, he'⟩
    refine ⟨?_, fun fd' ptr' he' => ?_, fun fd₁ fd₂ ptr' h₁ h₂ => ?_⟩
    · rw [length_del]
      exact h.size
    · obtain ⟨hne, he'⟩ := hold he'
      obtain ⟨o, ho, hctx⟩ := h.entered fd' ptr' he'
      have hptr : ptr ≠ ptr' := by
        rintro rfl
        exact hne (h.single fd' fd ptr he' he)
      refine ⟨o, ?_, hctx⟩
      rw [hobjects, List.getElem?_modify, ho]
      simp [hptr]
    · exact h.single fd₁ fd₂ ptr' (hold h₁).2 (hold h₂).2
  · exact h

end CppServerFramework.Async.FdManager

namespace CppServerFramework.Socket

open Async (FdManager FdObject)

namespace SocketPhase

/-- A number that the kernel has given out and that is not in `m_sock` yet. -/
def carries : SocketPhase → Option Nat
  | .opened _ fd _ _ | .accepted _ fd => some fd
  | _ => none

/-- The number in `m_sock` is closed. -/
def forgets : SocketPhase → Bool
  | .forgetting .. => true
  | _ => false

/-- The descriptor of an object whose method has come to this phase. -/
def Keeps (p : SocketPhase) (o : Option SocketObject) (fd : Nat) : Prop :=
  p.carries = some fd ∨ p.forgets = false ∧ o.bind (·.sock) = some fd

/-- What the phase of a method says about its object. -/
def Fits (o : SocketObject) : SocketPhase → Prop
  | .idle | .stopping .. | .working .. => True
  | .creating .. | .opened .. | .accepting .. | .accepted .. => o.sock = none
  | .connecting _ => o.sock.isSome
  | .closing _ fd _ | .releasing _ fd _ => o.sock = some fd ∧ o.isConnected = false
  | .forgetting .. => o.isConnected = false

theorem Keeps.iff_sock {p : SocketPhase} {o : Option SocketObject} {fd : Nat}
    (hcarries : p.carries = none) (hforgets : p.forgets = false) :
    p.Keeps o fd ↔ o.bind (·.sock) = some fd := by
  simp [Keeps, hcarries, hforgets]

end SocketPhase

namespace SocketWorld

variable (w : SocketWorld)

/-- No method of the object runs. -/
def Quiet (id : Nat) : Prop := ∀ t, (w.phase t).object ≠ some id

/-- The descriptor of the object: what is in `m_sock`, or what one of its methods is about to store
    there; `close` gives it up with `close_f`. -/
inductive Holds (fd id : Nat) : Prop
  | carried (t : Nat) : (w.phase t).object = some id → (w.phase t).carries = some fd → Holds fd id
  | member (o : SocketObject) : w.sockets id = some o → o.sock = some fd →
    (∀ t, (w.phase t).object = some id → (w.phase t).forgets = false) → Holds fd id

/-- Each open descriptor is that of the one object that it was opened for, and of no other one; a
    connected socket has one; and no object closes another number. -/
structure Accounted : Prop where
  owned : ∀ fd id, w.files fd = some id ↔ w.Holds fd id
  connected : ∀ id o, w.sockets id = some o → o.isConnected = true → o.sock.isSome
  onlyOwn : w.badCloses = 0

/-- `bind`, `connect`, `close` and the destructor begin when no method of the object runs, and the
    numbers that the kernel gives out are not so large that `m_datas` outgrows an `int`. -/
def Serial : SocketAction → Prop
  | .begins _ id _ | .close _ id _ => w.Quiet id
  | .store t | .init t => ∀ fd ∈ (w.phase t).carries, fd * 3 / 2 < 2 ^ 31
  | _ => True

structure Inv : Prop extends w.Accounted where
  manager : w.manager.Sound
  alone : ∀ t t' id, (w.phase t).object = some id → (w.phase t').object = some id → t = t'
  fits : ∀ t id, (w.phase t).object = some id → ∃ o, w.sockets id = some o ∧ (w.phase t).Fits o

variable {w} {w' : SocketWorld} {t id fd : Nat} {o : SocketObject} {p : SocketPhase}

/-- The fiber runs the one method of the object that runs, or is about to run one. -/
structure Runs (w : SocketWorld) (t id : Nat) : Prop where
  mine : w.phase t = .idle ∨ (w.phase t).object = some id
  others : ∀ t', t' ≠ t → (w.phase t').object ≠ some id

theorem Runs.of_quiet (hquiet : w.Quiet id) (hidle : w.phase t = .idle) : Runs w t id :=
  ⟨.inl hidle, fun t' _ => hquiet t'⟩

theorem Inv.runs (h : w.Inv) (hobject : (w.phase t).object = some id) : Runs w t id :=
  ⟨.inr hobject, fun t' hne ht' => hne (h.alone t' t id ht' hobject)⟩

theorem Runs.holds_iff (h : Runs w t id) :
    w.Holds fd id ↔ (w.phase t).Keeps (w.sockets id) fd := by
  constructor
  · rintro (⟨t', hobject, hcarries⟩ | ⟨o, ho, hsock, hforgets⟩)
    · obtain rfl : t' = t := not_imp_comm.mp (h.others t') fun hne => hne hobject
      exact .inl hcarries
    · refine .inr ⟨?_, by rw [ho]; exact hsock⟩
      rcases h.mine with hidle | hobject
      · rw [hidle]
        rfl
      · exact hforgets t hobject
  · rintro (hcarries | ⟨hforgets, hsock⟩)
    · refine .carried t (h.mine.resolve_left fun hidle => ?_) hcarries
      rw [hidle] at hcarries
      cases hcarries
    · obtain ⟨o, ho, hsock⟩ := Option.bind_eq_some_iff.mp hsock
      refine .member o ho hsock fun t' hobject => ?_
      obtain rfl : t' = t := not_imp_comm.mp (h.others t') fun hne => hne hobject
      exact hforgets

/-- What a step of a fiber does with one object: the next phase of its method, and the object. -/
structure Moves (w w' : SocketWorld) (t id : Nat) (p : SocketPhase) (x : Option SocketObject) :
    Prop where
  phase : w'.phase = Function.update w.phase t p
  sockets : w'.sockets = Function.update w.sockets id x
  object : p = .idle ∨ p.object = some id

namespace Moves

variable {x : Option SocketObject} {id' t' : Nat}

theorem phase_self (h : Moves w w' t id p x) : w'.phase t = p := by
  rw [h.phase, Function.update_self]

theorem phase_of_ne (h : Moves w w' t id p x) (hne : t' ≠ t) : w'.phase t' = w.phase t' := by
  rw [h.phase, Function.update_of_ne hne]

theorem sockets_self (h : Moves w w' t id p x) : w'.sockets id = x := by
  rw [h.sockets, Function.update_self]

theorem sockets_of_ne (h : Moves w w' t id p x) (hne : id' ≠ id) :
    w'.sockets id' = w.sockets id' := by
  rw [h.sockets, Function.update_of_ne hne]

theorem runs (h : Moves w w' t id p x) (hr : Runs w t id) : Runs w' t id where
  mine := by
    rw [h.phase_self]
    exact h.object
  others t' hne := by
    rw [h.phase_of_ne hne]
    exact hr.others t' hne

/-- The methods of the other objects are the same. -/
theorem phase_iff (h : Moves w w' t id p x) (hr : Runs w t id) (hne : id' ≠ id) (t' : Nat)
    (P : SocketPhase → Prop) :
    ((w'.phase t').object = some id' ∧ P (w'.phase t')) ↔
      ((w.phase t').object = some id' ∧ P (w.phase t')) := by
  by_cases ht : t' = t
  · subst ht
    have hnot : ∀ q : SocketPhase, q = .idle ∨ q.object = some id → q.object ≠ some id' := by
      rintro q (rfl | hq) heq
      · cases heq
      · exact hne (Option.some.inj (heq.symm.trans hq))
    rw [h.phase_self]
    exact iff_of_false (fun hp => hnot p h.object hp.1) fun hp => hnot _ hr.mine hp.1
  · rw [h.phase_of_ne ht]

theorem holds_iff (h : Moves w w' t id p x) (hr : Runs w t id) (hne : id' ≠ id) :
    w'.Holds fd id' ↔ w.Holds fd id' := by
  constructor
  · rintro (⟨t', hobject, hcarries⟩ | ⟨o, ho, hsock, hforgets⟩)
    · have hold := (h.phase_iff hr hne t' (·.carries = some fd)).mp ⟨hobject, hcarries⟩
      exact .carried t' hold.1 hold.2
    · refine .member o (h.sockets_of_ne hne ▸ ho) hsock fun t' hobject => ?_
      by_contra hnot
      have hnew := (h.phase_iff hr hne t' (·.forgets ≠ false)).mpr ⟨hobject, hnot⟩
      exact hnew.2 (hforgets t' hnew.1)
  · rintro (⟨t', hobject, hcarries⟩ | ⟨o, ho, hsock, hforgets⟩)
    · have hnew := (h.phase_iff hr hne t' (·.carries = some fd)).mpr ⟨hobject, hcarries⟩
      exact .carried t' hnew.1 hnew.2
    · refine .member o ((h.sockets_of_ne hne).trans ho) hsock fun t' hobject => ?_
      by_contra hnot
      have hold := (h.phase_iff hr hne t' (·.forgets ≠ false)).mp ⟨hobject, hnot⟩
      exact hold.2 (hforgets t' hold.1)

end Moves

/-- One step of a fiber in a method of an object. -/
theorem Inv.moves (h : w.Inv) (hr : Runs w t id) {x : Option SocketObject}
    (hm : Moves w w' t id p x)
    (hfiles : ∀ fd id', w'.files fd = some id' ↔ if id' = id then p.Keeps x fd
      else w.files fd = some id')
    (hconnected : ∀ o, x = some o → o.isConnected = true → o.sock.isSome)
    (hfits : p.object = some id → ∃ o, x = some o ∧ p.Fits o)
    (hbad : w'.badCloses = 0) (hmanager : w'.manager.Sound) : w'.Inv where
  owned fd id' := by
    rw [hfiles]
    by_cases hid : id' = id
    · subst hid
      rw [if_pos rfl, (hm.runs hr).holds_iff, hm.phase_self, hm.sockets_self]
    · rw [if_neg hid, h.owned, hm.holds_iff hr hid]
  connected id' o ho := by
    by_cases hid : id' = id
    · subst hid
      exact hconnected o (hm.sockets_self.symm.trans ho)
    · exact h.connected id' o ((hm.sockets_of_ne hid).symm.trans ho)
  onlyOwn := hbad
  manager := hmanager
  alone t₁ t₂ id' h₁ h₂ := by
    by_cases hid : id' = id
    · subst hid
      have hall : ∀ t', (w'.phase t').object = some id' → t' = t := fun t' ht' =>
        not_imp_comm.mp ((hm.runs hr).others t') fun hne => hne ht'
      rw [hall t₁ h₁, hall t₂ h₂]
    · have hold : ∀ t', (w'.phase t').object = some id' → (w.phase t').object = some id' :=
        fun t' ht' => ((hm.phase_iff hr hid t' fun _ => True).mp ⟨ht', trivial⟩).1
      exact h.alone t₁ t₂ id' (hold t₁ h₁) (hold t₂ h₂)
  fits t' id' ht' := by
    by_cases hid : id' = id
    · subst hid
      obtain rfl : t' = t := not_imp_comm.mp ((hm.runs hr).others t') fun hne => hne ht'
      rw [hm.phase_self] at ht' ⊢
      rw [hm.sockets_self]
      exact hfits ht'
    · by_contra hnot
      have hold := (hm.phase_iff hr hid t' fun q => ¬∃ o, w.sockets id' = some o ∧ q.Fits o).mp
        ⟨ht', hm.sockets_of_ne hid ▸ hnot⟩
      exact hold.2 (h.fits t' id' hold.1)

/-- A step that opens and closes nothing. -/
theorem Inv.goes (h : w.Inv) (hr : Runs w t id) {x : Option SocketObject}
    (hm : Moves w w' t id p x)
    (hkeeps : ∀ fd, p.Keeps x fd ↔ (w.phase t).Keeps (w.sockets id) fd)
    (hconnected : ∀ o, x = some o → o.isConnected = true → o.sock.isSome)
    (hfits : p.object = some id → ∃ o, x = some o ∧ p.Fits o)
    (hfiles : w'.files = w.files) (hbad : w'.badCloses = w.badCloses)
    (hmanager : w'.manager.Sound) : w'.Inv := by
  refine h.moves hr hm (fun fd id' => ?_) hconnected hfits (hbad.trans h.onlyOwn) hmanager
  rw [hfiles]
  split
  · rename_i hid
    rw [hid, hkeeps, h.owned, hr.holds_iff]
  · rfl

/-- The method goes on, and the object is the same. -/
theorem Inv.next (h : w.Inv) (hr : Runs w t id) (ho : w.sockets id = some o)
    (hobject : p = .idle ∨ p.object = some id)
    (hkeeps : ∀ fd, p.Keeps (some o) fd ↔ (w.phase t).Keeps (some o) fd) (hfits : p.Fits o) :
    (w.goto t p).Inv := by
  refine h.goes hr (x := some o) ⟨rfl, ?_, hobject⟩ (fun fd => ho ▸ hkeeps fd) ?_
    (fun _ => ⟨o, rfl, hfits⟩) rfl rfl h.manager
  · rw [← ho, Function.update_eq_self]
    rfl
  · rintro o' ⟨⟩
    exact h.connected id o ho

/-- The object changes, and its descriptor stays. -/
theorem Inv.writes (h : w.Inv) (hr : Runs w t id) {x : Option SocketObject} {m : FdManager}
    (hm : m.Sound) (hobject : p = .idle ∨ p.object = some id)
    (hkeeps : ∀ fd, p.Keeps x fd ↔ (w.phase t).Keeps (w.sockets id) fd)
    (hconnected : ∀ o, x = some o → o.isConnected = true → o.sock.isSome)
    (hfits : p.object = some id → ∃ o, x = some o ∧ p.Fits o) :
    (({ w with manager := m }.write id x).goto t p).Inv :=
  h.goes hr ⟨rfl, rfl, hobject⟩ hkeeps hconnected hfits rfl rfl hm

/-- What the phase of a method says holds of its object. -/
theorem Inv.fits_of (h : w.Inv) (hp : w.phase t = p) (hobject : p.object = some id)
    (ho : w.sockets id = some o) : p.Fits o := by
  subst hp
  obtain ⟨o', ho', hfits⟩ := h.fits t id hobject
  cases ho.symm.trans ho'
  exact hfits

theorem Inv.quiet_of_none (h : w.Inv) (hnone : w.sockets id = none) : w.Quiet id := by
  intro t ht
  obtain ⟨o, ho, -⟩ := h.fits t id ht
  rw [hnone] at ho
  cases ho

/-- A new object has no descriptor. -/
theorem Inv.makes (h : w.Inv) (hidle : w.phase t = .idle) (hnone : w.sockets id = none)
    (hsock : o.sock = none) (hconn : o.isConnected = false)
    (hobject : p = .idle ∨ p.object = some id) (hcarries : p.carries = none) (hfits : p.Fits o) :
    ((w.write id (some o)).goto t p).Inv := by
  refine h.writes (.of_quiet (h.quiet_of_none hnone) hidle) h.manager hobject (fun fd => ?_) ?_
    fun _ => ⟨o, rfl, hfits⟩
  · rw [SocketPhase.Keeps, hcarries, Option.bind_some, hsock, hidle, hnone]
    simp [SocketPhase.Keeps, SocketPhase.carries]
  · rintro o' ⟨⟩ hc
    rw [hconn] at hc
    cases hc

/-- The end of `close` for an object without a descriptor. -/
theorem Inv.finishes (h : w.Inv) (hr : Runs w t id) {m : FdManager} (hm : m.Sound)
    (hnone : ∀ fd, ¬(w.phase t).Keeps (w.sockets id) fd) (hsock : o.sock = none)
    (hconn : o.isConnected = false) (dies : Bool) :
    (({ w with manager := m }.write id (some o)).finish t id dies).Inv := by
  have hgo : ∀ x : Option SocketObject, (∀ o' ∈ x, o' = o) →
      (({ w with manager := m }.write id x).goto t .idle).Inv := by
    intro x hx
    refine h.writes hr hm (.inl rfl) (fun fd => iff_of_false ?_ (hnone fd)) ?_
      (fun ht => by cases ht)
    · rintro (hcarries | ⟨-, hs⟩)
      · cases hcarries
      · obtain ⟨o', ho', hs⟩ := Option.bind_eq_some_iff.mp hs
        rw [hx o' ho', hsock] at hs
        cases hs
    · intro o' ho' hc
      rw [hx o' ho', hconn] at hc
      cases hc
  cases dies with
  | false => exact hgo (some o) fun o' ho' => (Option.some.inj ho').symm
  | true =>
    have hgone := hgo none fun o' ho' => by cases ho'
    rwa [finish, if_pos rfl, write, write, Function.update_idem]

/-! ## The methods -/

/-- `bind` and `connect` begin. -/
theorem Inv.begins (h : w.Inv) (hr : Runs w t id) (hidle : w.phase t = .idle)
    (ho : w.sockets id = some o) (call : SocketCall) : (w.begins t id call o).Inv := by
  rw [SocketWorld.begins]
  split
  · rename_i hnone
    refine h.next hr ho (.inr rfl) (fun fd => ?_) (Option.isNone_iff_eq_none.mp hnone)
    rw [hidle, SocketPhase.Keeps.iff_sock rfl rfl, SocketPhase.Keeps.iff_sock rfl rfl]
  · refine h.next hr ho (.inr rfl) (fun fd => ?_) trivial
    rw [hidle, SocketPhase.Keeps.iff_sock rfl rfl, SocketPhase.Keeps.iff_sock rfl rfl]

/-- The kernel gives a number out for an object that has none. -/
theorem Inv.opens (h : w.Inv) (hr : Runs w t id) (ho : w.sockets id = some o)
    (hsock : o.sock = none) (hold : (w.phase t).carries = none) (hclosed : w.files fd = none)
    (hobject : p.object = some id) (hcarries : p.carries = some fd) (hfits : p.Fits o) :
    ((w.openFile fd id).goto t p).Inv := by
  have hnobody : ∀ id', ¬w.Holds fd id' := fun id' hheld => by
    rw [(h.owned fd id').mpr hheld] at hclosed
    cases hclosed
  have hnothing : ∀ fd', ¬w.Holds fd' id := fun fd' => by
    rw [hr.holds_iff, SocketPhase.Keeps, hold, ho, Option.bind_some, hsock]
    simp
  refine h.moves hr (x := some o) ⟨rfl, ?_, .inr hobject⟩ (fun fd' id' => ?_) ?_
    (fun _ => ⟨o, rfl, hfits⟩) h.onlyOwn h.manager
  · rw [← ho, Function.update_eq_self]
    rfl
  · change Function.update w.files fd (some id) fd' = some id' ↔ _
    rw [Function.update_apply, SocketPhase.Keeps, hcarries, Option.bind_some, hsock]
    by_cases hfd : fd' = fd <;> by_cases hid : id' = id
    · simp [hfd, hid]
    · rw [if_pos hfd, if_neg hid, hfd, h.owned]
      exact iff_of_false (fun heq => hid (Option.some.inj heq).symm) (hnobody id')
    · rw [if_neg hfd, if_pos hid, hid, h.owned]
      refine iff_of_false (hnothing fd') ?_
      rintro (heq | ⟨-, heq⟩)
      · exact hfd (Option.some.inj heq).symm
      · cases heq
    · rw [if_neg hfd, if_neg hid]
  · rintro o' ⟨⟩
    exact h.connected id o ho

/-- `newSock` -/
theorem Inv.socket (h : w.Inv) {call : SocketCall} (hp : w.phase t = .creating id call)
    (ho : w.sockets id = some o) (hsock : o.sock = none) {hook : Bool} {answer : Option Nat}
    (hs : w.socket t id call hook o answer = some w') : w'.Inv := by
  have hr : Runs w t id := h.runs (by rw [hp]; rfl)
  cases answer with
  | none =>
    cases hs
    refine h.writes hr h.manager (.inl rfl) (fun fd => ?_) ?_ (fun ht => by cases ht)
    · rw [hp, ho, SocketPhase.Keeps.iff_sock rfl rfl, SocketPhase.Keeps.iff_sock rfl rfl,
        Option.bind_some, Option.bind_some, hsock]
    · rintro o' ⟨⟩ hc
      rw [← hsock]
      exact h.connected id o ho hc
  | some fd =>
    rw [SocketWorld.socket] at hs
    split at hs
    · rename_i hclosed
      cases hs
      exact h.opens hr ho hsock (by rw [hp]; rfl) (Option.isNone_iff_eq_none.mp hclosed) rfl rfl
        hsock
    · cases hs

theorem Inv.stores (h : w.Inv) {hook : Bool} {call : SocketCall}
    (hp : w.phase t = .opened id fd hook call) (ho : w.sockets id = some o) (hsock : o.sock = none)
    (hfd : fd * 3 / 2 < 2 ^ 31) : (w.store t id fd hook call o).Inv := by
  have hmanager : (if hook then w.manager.getSocket fd else w.manager).Sound := by
    split
    · exact h.manager.getSocket hfd
    · exact h.manager
  refine h.writes (h.runs (by rw [hp]; rfl)) hmanager (.inr rfl) (fun fd' => ?_) ?_
    fun _ => ⟨_, rfl, trivial⟩
  · rw [hp, ho, SocketPhase.Keeps.iff_sock rfl rfl, SocketPhase.Keeps, SocketPhase.carries,
      Option.bind_some, Option.bind_some, hsock]
    simp
  · rintro o' ⟨⟩ -
    rfl

theorem Inv.dials (h : w.Inv) {family : Int} (hp : w.phase t = .working id (.connect family))
    (ho : w.sockets id = some o) (hook : Bool) : (w.dial t id hook family o).Inv := by
  have hr : Runs w t id := h.runs (by rw [hp]; rfl)
  have hsame : ∀ q : SocketPhase, q.carries = none → q.forgets = false → ∀ fd,
      q.Keeps (some o) fd ↔ (w.phase t).Keeps (some o) fd := fun q hc hf fd => by
    rw [hp, SocketPhase.Keeps.iff_sock hc hf, SocketPhase.Keeps.iff_sock rfl rfl]
  rw [SocketWorld.dial]
  split
  · exact h.next hr ho (.inl rfl) (hsame _ rfl rfl) trivial
  · split
    · rename_i hable
      obtain ⟨fd, hfd, -⟩ := (Option.any_eq_true _ _).mp hable
      exact h.next hr ho (.inr rfl) (hsame _ rfl rfl) (Option.isSome_iff_exists.mpr ⟨fd, hfd⟩)
    · exact h.next hr ho (.inr rfl) (hsame _ rfl rfl) trivial

theorem Inv.connects (h : w.Inv) (hp : w.phase t = .connecting id) (ho : w.sockets id = some o)
    (hsock : o.sock.isSome) (ok : Bool) : (w.connected t id ok o).Inv := by
  have hr : Runs w t id := h.runs (by rw [hp]; rfl)
  rw [SocketWorld.connected]
  split
  · refine h.writes hr h.manager (.inl rfl) (fun fd => ?_) ?_ (fun ht => by cases ht)
    · rw [hp, ho, SocketPhase.Keeps.iff_sock rfl rfl, SocketPhase.Keeps.iff_sock rfl rfl]
      rfl
    · rintro o' ⟨⟩ -
      exact hsock
  · refine h.next hr ho (.inr rfl) (fun fd => ?_) trivial
    rw [hp, SocketPhase.Keeps.iff_sock rfl rfl, SocketPhase.Keeps.iff_sock rfl rfl]

/-- What `accept_f` answers. -/
theorem Inv.accepts (h : w.Inv) {sock answer : Option Nat} (hp : w.phase t = .accepting id sock)
    (ho : w.sockets id = some o) (hsock : o.sock = none)
    (hs : w.accepted t id sock answer = some w') : w'.Inv := by
  have hr : Runs w t id := h.runs (by rw [hp]; rfl)
  cases answer with
  | none =>
    cases hs
    refine h.writes hr h.manager (.inl rfl) (fun fd => ?_) ?_ (fun ht => by cases ht)
    · rw [hp, ho, SocketPhase.Keeps.iff_sock rfl rfl, SocketPhase.Keeps.iff_sock rfl rfl,
        Option.bind_some, hsock]
      rfl
    · rintro o' ⟨⟩
  | some fd =>
    rw [SocketWorld.accepted] at hs
    split at hs
    · rename_i hgives
      cases hs
      rw [Bool.and_eq_true, Option.isNone_iff_eq_none] at hgives
      exact h.opens hr ho hsock (by rw [hp]; rfl) hgives.2 rfl rfl hsock
    · cases hs

/-- `init` always succeeds: with the hook and without it the context of an accepted socket is there,
    and nobody has closed it. -/
theorem Inv.inits (h : w.Inv) (hp : w.phase t = .accepted id fd) (ho : w.sockets id = some o)
    (hsock : o.sock = none) (hfd : fd * 3 / 2 < 2 ^ 31) : (w.initAccepted t id fd o).Inv := by
  obtain ⟨ctx, hfind, hsocket, hopen⟩ := h.manager.find_getSocket hfd
  have hinit : o.init (w.manager.getSocket fd) fd =
      some { o with sock := some fd, isConnected := true } := by
    rw [SocketObject.init, if_pos]
    rw [hfind]
    simp [hsocket, hopen]
  rw [initAccepted, hinit]
  refine h.writes (h.runs (by rw [hp]; rfl)) (h.manager.getSocket hfd) (.inl rfl) (fun fd' => ?_) ?_
    fun ht => by cases ht
  · rw [hp, ho, SocketPhase.Keeps.iff_sock rfl rfl, SocketPhase.Keeps, SocketPhase.carries,
      Option.bind_some, Option.bind_some, hsock]
    simp
  · rintro o' ⟨⟩ -
    rfl

theorem Inv.shuts (h : w.Inv) {dies : Bool} (hp : w.phase t = .stopping id dies)
    (ho : w.sockets id = some o) : (w.shut t id dies o).Inv := by
  have hr : Runs w t id := h.runs (by rw [hp]; rfl)
  have hkeeps : ∀ fd, (w.phase t).Keeps (w.sockets id) fd ↔ o.sock = some fd := fun fd => by
    rw [hp, ho, SocketPhase.Keeps.iff_sock rfl rfl, Option.bind_some]
  rw [shut]
  split
  · rename_i hnone
    simp only [Bool.and_eq_true, Bool.not_eq_true', Option.isNone_iff_eq_none] at hnone
    have hw : ({ w with manager := w.manager }.write id (some o)) = w := by
      rw [write, ← ho, Function.update_eq_self]
    rw [← hw]
    refine h.finishes hr h.manager (fun fd => ?_) hnone.2 hnone.1 dies
    rw [hkeeps, hnone.2]
    simp
  · dsimp only
    split
    · rename_i fd hsock
      refine h.writes hr h.manager (.inr rfl) (fun fd' => ?_) ?_ fun _ => ⟨_, rfl, hsock, rfl⟩
      · rw [hkeeps, SocketPhase.Keeps.iff_sock rfl rfl]
        rfl
      · rintro o' ⟨⟩ hc
        cases hc
    · rename_i hsock
      refine h.finishes (o := { o with isConnected := false }) hr h.manager (fun fd => ?_) hsock rfl
        dies
      rw [hkeeps, hsock]
      simp

theorem Inv.drops (h : w.Inv) {dies : Bool} (hp : w.phase t = .closing id fd dies)
    (ho : w.sockets id = some o) (hfits : o.sock = some fd ∧ o.isConnected = false) (hook : Bool) :
    (w.dropCtx t id fd dies hook).Inv := by
  have hmanager : (if hook then w.manager.drop fd else w.manager).Sound := by
    split
    · exact h.manager.drop
    · exact h.manager
  refine h.goes (h.runs (by rw [hp]; rfl)) (p := .releasing id fd dies) (x := some o)
    ⟨rfl, ?_, .inr rfl⟩ (fun fd' => ?_) ?_ (fun _ => ⟨o, rfl, hfits⟩) rfl rfl hmanager
  · rw [← ho, Function.update_eq_self]
    rfl
  · rw [hp, ho, SocketPhase.Keeps.iff_sock rfl rfl, SocketPhase.Keeps.iff_sock rfl rfl]
  · rintro o' ⟨⟩
    exact h.connected id o ho

/-- `close_f` is called with the number of the object. -/
theorem Inv.closesFile (h : w.Inv) {dies : Bool} (hp : w.phase t = .releasing id fd dies)
    (ho : w.sockets id = some o) (hfits : o.sock = some fd ∧ o.isConnected = false) :
    ((w.closeFile fd id).goto t (.forgetting id dies)).Inv := by
  have hr : Runs w t id := h.runs (by rw [hp]; rfl)
  have hkeeps : ∀ fd', w.files fd' = some id ↔ fd' = fd := fun fd' => by
    rw [h.owned, hr.holds_iff, hp, ho, SocketPhase.Keeps.iff_sock rfl rfl, Option.bind_some,
      hfits.1, Option.some.injEq, eq_comm]
  refine h.moves hr (x := some o) ⟨rfl, ?_, .inr rfl⟩ (fun fd' id' => ?_) ?_
    (fun _ => ⟨o, rfl, hfits.2⟩) ?_ h.manager
  · rw [← ho, Function.update_eq_self]
    rfl
  · change Function.update w.files fd none fd' = some id' ↔ _
    rw [Function.update_apply]
    have hnothing : ¬(SocketPhase.forgetting id dies).Keeps (some o) fd' := by
      simp [SocketPhase.Keeps, SocketPhase.carries, SocketPhase.forgets]
    by_cases hfd : fd' = fd <;> by_cases hid : id' = id
    · rw [if_pos hfd, if_pos hid]
      exact iff_of_false (by simp) hnothing
    · rw [if_pos hfd, if_neg hid, hfd, (hkeeps fd).mpr rfl]
      exact iff_of_false (by simp) fun heq => hid (Option.some.inj heq).symm
    · rw [if_neg hfd, if_pos hid, hid, hkeeps]
      exact iff_of_false hfd hnothing
    · rw [if_neg hfd, if_neg hid]
  · rintro o' ⟨⟩
    exact h.connected id o ho
  · change (if w.files fd = some id then w.badCloses else w.badCloses + 1) = 0
    rw [if_pos ((hkeeps fd).mpr rfl)]
    exact h.onlyOwn

theorem Inv.forgets (h : w.Inv) {dies : Bool} (hp : w.phase t = .forgetting id dies)
    (hconn : o.isConnected = false) : (w.forget t id dies o).Inv := by
  refine h.finishes (o := { o with sock := none }) (h.runs (by rw [hp]; rfl)) h.manager
    (fun fd => ?_) rfl hconn dies
  rw [hp]
  simp [SocketPhase.Keeps, SocketPhase.carries, SocketPhase.forgets]

theorem Inv.step (h : w.Inv) {a : SocketAction} (ha : w.Serial a)
    (hs : socketMachine.step w a = some w') : w'.Inv := by
  -- what the invariant says of the object of a method
  have hobject : ∀ {t id p}, w.phase t = p → p.object = some id →
      ∃ o, w.sockets id = some o ∧ p.Fits o := by
    rintro t id p rfl hp
    exact h.fits t id hp
  cases a with
  | construct t id family type protocol =>
    simp only [socketMachine] at hs
    split at hs
    · rename_i hnew
      cases hs
      have hmade := h.makes (p := .idle) (o := { family, type, protocol }) hnew.1
        (Option.isNone_iff_eq_none.mp hnew.2) rfl rfl (.inl rfl) rfl trivial
      rwa [goto, show Function.update (w.write id _).phase t .idle = w.phase by
        rw [← hnew.1]
        exact Function.update_eq_self ..] at hmade
    · cases hs
  | begins t id call =>
    simp only [socketMachine] at hs
    split at hs
    · rename_i hidle
      obtain ⟨o, ho, rfl⟩ := Option.map_eq_some_iff.mp hs
      exact h.begins (.of_quiet ha hidle) hidle ho call
    · cases hs
  | socket t hook answer =>
    simp only [socketMachine] at hs
    split at hs
    · rename_i id call hp
      obtain ⟨o, ho, hs⟩ := Option.bind_eq_some_iff.mp hs
      exact h.socket hp ho (h.fits_of hp rfl ho) hs
    · cases hs
  | store t =>
    simp only [socketMachine] at hs
    split at hs
    · rename_i id fd hook call hp
      obtain ⟨o, ho, rfl⟩ := Option.map_eq_some_iff.mp hs
      exact h.stores hp ho (h.fits_of hp rfl ho) (ha fd (by rw [hp]; rfl))
    · cases hs
  | bound t =>
    simp only [socketMachine] at hs
    split at hs
    · rename_i id family hp
      cases hs
      obtain ⟨o, ho, -⟩ := hobject hp rfl
      refine h.next (h.runs (by rw [hp]; rfl)) ho (.inl rfl) (fun fd => ?_) trivial
      rw [hp, SocketPhase.Keeps.iff_sock rfl rfl, SocketPhase.Keeps.iff_sock rfl rfl]
    · cases hs
  | dial t hook =>
    simp only [socketMachine] at hs
    split at hs
    · rename_i id family hp
      obtain ⟨o, ho, rfl⟩ := Option.map_eq_some_iff.mp hs
      exact h.dials hp ho hook
    · cases hs
  | connected t ok =>
    simp only [socketMachine] at hs
    split at hs
    · rename_i id hp
      obtain ⟨o, ho, rfl⟩ := Option.map_eq_some_iff.mp hs
      exact h.connects hp ho (h.fits_of hp rfl ho) ok
    · cases hs
  | accept t id newId =>
    simp only [socketMachine] at hs
    split at hs
    · rename_i hnew
      obtain ⟨o, ho, rfl⟩ := Option.map_eq_some_iff.mp hs
      exact h.makes hnew.1 (Option.isNone_iff_eq_none.mp hnew.2) rfl rfl (.inr rfl) rfl rfl
    · cases hs
  | accepted t answer =>
    simp only [socketMachine] at hs
    split at hs
    · rename_i id sock hp
      obtain ⟨o, ho, hsock⟩ := hobject hp rfl
      exact h.accepts hp ho hsock hs
    · cases hs
  | init t =>
    simp only [socketMachine] at hs
    split at hs
    · rename_i id fd hp
      obtain ⟨o, ho, rfl⟩ := Option.map_eq_some_iff.mp hs
      exact h.inits hp ho (h.fits_of hp rfl ho) (ha fd (by rw [hp]; rfl))
    · cases hs
  | close t id dies =>
    simp only [socketMachine] at hs
    split at hs
    · rename_i hidle
      obtain ⟨o, ho, rfl⟩ := Option.map_eq_some_iff.mp hs
      refine h.next (.of_quiet ha hidle) ho (.inr rfl) (fun fd => ?_) trivial
      rw [hidle, SocketPhase.Keeps.iff_sock rfl rfl, SocketPhase.Keeps.iff_sock rfl rfl]
    · cases hs
  | shut t =>
    simp only [socketMachine] at hs
    split at hs
    · rename_i id dies hp
      obtain ⟨o, ho, rfl⟩ := Option.map_eq_some_iff.mp hs
      exact h.shuts hp ho
    · cases hs
  | drop t hook =>
    simp only [socketMachine] at hs
    split at hs
    · rename_i id fd dies hp
      cases hs
      obtain ⟨o, ho, hfits⟩ := hobject hp rfl
      exact h.drops hp ho hfits hook
    · cases hs
  | closeFile t =>
    simp only [socketMachine] at hs
    split at hs
    · rename_i id fd dies hp
      cases hs
      obtain ⟨o, ho, hfits⟩ := hobject hp rfl
      exact h.closesFile hp ho hfits
    · cases hs
  | forget t =>
    simp only [socketMachine] at hs
    split at hs
    · rename_i id dies hp
      obtain ⟨o, ho, rfl⟩ := Option.map_eq_some_iff.mp hs
      exact h.forgets hp (h.fits_of hp rfl ho)
    · cases hs

theorem Inv.initial : Inv {} where
  owned fd id := by
    refine iff_of_false (by simp) ?_
    rintro (⟨t, ht, -⟩ | ⟨o, ho, -, -⟩)
    · cases ht
    · cases ho
  connected _ _ ho := by cases ho
  onlyOwn := rfl
  manager := .initial
  alone _ _ _ ht := by cases ht
  fits _ _ ht := by cases ht

/-- The descriptor of an object that no method runs of is what is in `m_sock`. -/
theorem holds_iff_of_quiet (hquiet : w.Quiet id) :
    w.Holds fd id ↔ ∃ o, w.sockets id = some o ∧ o.sock = some fd := by
  constructor
  · rintro (⟨t, ht, -⟩ | ⟨o, ho, hsock, -⟩)
    · exact absurd ht (hquiet t)
    · exact ⟨o, ho, hsock⟩
  · rintro ⟨o, ho, hsock⟩
    exact .member o ho hsock fun t ht => absurd ht (hquiet t)

end SocketWorld

/-- In every run in which the methods of one object follow one another, `accept` aside, the open
    descriptors and the sockets account for each other; at rest a descriptor is open exactly if it
    is in the `m_sock` of a socket. -/
theorem socket_accounted (w : SocketWorld) (h : socketMachine.Reach SocketWorld.Serial w) :
    w.Accounted ∧ ((∀ t, w.phase t = .idle) → ∀ fd id, w.files fd = some id ↔
      ∃ o, w.sockets id = some o ∧ o.sock = some fd) := by
  have hinv : w.Inv := by
    refine Machine.Reach.invariant (P := SocketWorld.Inv) ?_ ?_ h
    · rintro _ rfl
      exact .initial
    · exact fun w a w' hw ha hs => hw.step ha hs
  refine ⟨hinv.toAccounted, fun hrest fd id => ?_⟩
  have hquiet : w.Quiet id := fun t => by
    rw [hrest t]
    exact (Option.some_ne_none id).symm
  rw [hinv.owned, SocketWorld.holds_iff_of_quiet hquiet]

/-- While fiber 0 waits in `accept`, the `connect` of fiber 1 fails; fiber 2 accepts with the number
    that it has closed before it is out of its `m_sock`. -/
theorem socket_accounted_reused :
    ∃ w, socketMachine.Reach SocketWorld.Serial w ∧ w.Accounted ∧ w.files 4 = some 3 ∧
      (∀ id, w.Holds 4 id → id = 3) ∧
      w.sockets 2 = some { family := 2, type := 1, sock := some 4 } := by
  have hrun : (socketMachine.run {} [.construct 0 0 2 1 0, .begins 0 0 (.bind 2),
      .socket 0 true (some 3), .store 0, .bound 0, .accept 0 0 1, .construct 1 2 2 1 0,
      .begins 1 2 (.connect 2), .socket 1 true (some 4), .store 1, .dial 1 true,
      .accepted 0 (some 5), .connected 1 false, .shut 1, .drop 1 true, .closeFile 1, .init 0,
      .accept 2 0 3, .accepted 2 (some 4), .init 2]).any (fun w =>
        w.files 4 = some 3 ∧ w.sockets 2 = some { family := 2, type := 1, sock := some 4 }) =
      true := by
    decide
  obtain ⟨w, hr, hr'⟩ := (Option.any_eq_true _ _).mp hrun
  obtain ⟨hfile, hsocket⟩ := of_decide_eq_true hr'
  have hreach : socketMachine.Reach SocketWorld.Serial w := by
    refine Machine.Reach.of_run _ (.init rfl) ?_ hr
    refine .cons trivial rfl (.cons ?_ rfl (.cons trivial rfl (.cons ?_ rfl (.cons trivial rfl
      (.cons trivial rfl (.cons trivial rfl (.cons ?_ rfl (.cons trivial rfl (.cons ?_ rfl
      (.cons trivial rfl (.cons trivial rfl (.cons trivial rfl (.cons trivial rfl (.cons trivial rfl
      (.cons trivial rfl (.cons ?_ rfl (.cons trivial rfl (.cons trivial rfl
      (.cons ?_ rfl trivial)))))))))))))))))))
    · intro t ht
      cases ht
    · rintro fd ⟨⟩
      decide
    · intro t ht
      rcases t with _ | t <;> cases ht
    all_goals
      rintro fd ⟨⟩
      decide
  obtain ⟨haccounted, -⟩ := socket_accounted w hreach
  refine ⟨w, hreach, haccounted, hfile, fun id hid => ?_, hsocket⟩
  rw [(haccounted.owned 4 id).mpr hid] at hfile
  exact Option.some.inj hfile

end CppServerFramework.Socket
