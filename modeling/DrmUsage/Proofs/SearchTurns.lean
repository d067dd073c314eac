-- SUMMARY: A search over all backends as the turns that they take: who is asked what, and what is left of it in the hub.
import Mathlib.Data.List.Basic
import DrmUsage.Proofs.BackendMemory

/-!
# Turns of a search

In a search every backend has one turn, in the order of the list. It cannot be
prepared, or it fails to find anything, or it finds some devices, of which each is
identified at once (`Backend.Takes`). The turns of a search follow each other on
the states that they leave (`Session`), and all that a search answers is told by
its turns (`Vendors.find_turns`). What backends do within their turns is up to
them; if each of them keeps to a rule, the whole search does (`Backend.Keeps`,
`Backend.Attaches`).
-/

namespace DrmUsage

/-! ## Turns -/

/-- What came of the turn of a backend. -/
inductive Turn where
  | unprepared (failure : Failure)
  | failed (failure : Failure)
  | found (handles : List Handle)

namespace Turn

/-- The handles that were found. -/
def handles : Turn → List Handle
  | found handles => handles
  | _ => []

/-- The failure of a backend that could not be prepared. -/
def unprepared? : Turn → Option Failure
  | unprepared failure => some failure
  | _ => none

end Turn

/-- The handles that a search of one backend found. -/
def Found.handles {τ δ : Type} (found : Found τ δ) : List Handle :=
  match found.devices with
  | .ok handles => handles
  | .error _ => []

theorem Found.handles_of_ok {τ δ : Type} {found : Found τ δ} {handles : List Handle}
    (h : found.devices = .ok handles) : found.handles = handles := by
  unfold Found.handles
  rw [h]

theorem Found.handles_of_error {τ δ : Type} {found : Found τ δ} {failure : Failure}
    (h : found.devices = .error failure) : found.handles = [] := by
  unfold Found.handles
  rw [h]

theorem Found.handles_answer {τ δ : Type} {handles : List Handle} {state : τ} {hub : Hub δ} :
    Found.handles ⟨IntelBackend.answer handles, state, hub⟩ = handles := by
  cases handles <;> rfl

section

variable {τ δ : Type} [Gpu δ]

/-- The hub after a backend identified some devices. -/
def Backend.identifyAll (b : Backend τ δ) (fs : Snapshot) (handles : List Handle) (hub : Hub δ) :
    Hub δ :=
  handles.foldl (fun hub h => b.identify fs h hub) hub

/-- The turn of a backend, with the states before and after it. Only a prepared backend is asked
for devices. -/
inductive Backend.Takes (fs : Snapshot) (mask : Option UInt64) (b : Backend τ δ) :
    τ × Hub δ → Turn → τ × Hub δ → Prop
  | unprepared {state state' : τ} {hub : Hub δ} (hprepare : b.prepare state = (false, state')) :
      Takes fs mask b (state, hub) (.unprepared (.unprepared b.name (b.lastFailure state')))
        (state', hub)
  | failed {state ready : τ} {hub : Hub δ} {found : Found τ δ} {failure : Failure}
      (hprepare : b.prepare state = (true, ready))
      (hfind : (b.find fs mask ready hub).value = found)
      (hdevices : found.devices = .error failure) :
      Takes fs mask b (state, hub) (.failed failure) (found.state, found.hub)
  | found {state ready : τ} {hub : Hub δ} {found : Found τ δ} {handles : List Handle}
      (hprepare : b.prepare state = (true, ready))
      (hfind : (b.find fs mask ready hub).value = found)
      (hdevices : found.devices = .ok handles) :
      Takes fs mask b (state, hub) (.found handles)
        (found.state, b.identifyAll fs handles found.hub)

/-- The turns of some backends, one after the other, with the states before and after all. -/
inductive Session (fs : Snapshot) (mask : Option UInt64) :
    List (Backend τ δ) → τ × Hub δ → List Turn → τ × Hub δ → Prop
  | idle (s : τ × Hub δ) : Session fs mask [] s [] s
  | turn {b : Backend τ δ} {later : List (Backend τ δ)} {s s' s'' : τ × Hub δ} {turn : Turn}
      {turns : List Turn} (hturn : b.Takes fs mask s turn s')
      (hlater : Session fs mask later s' turns s'') :
      Session fs mask (b :: later) s (turn :: turns) s''

variable {fs : Snapshot} {mask : Option UInt64}

theorem Backend.exists_takes (fs : Snapshot) (mask : Option UInt64) (b : Backend τ δ)
    (s : τ × Hub δ) : ∃ turn s', b.Takes fs mask s turn s' := by
  obtain ⟨state, hub⟩ := s
  rcases hprepare : b.prepare state with ⟨ready, state'⟩
  cases ready with
  | false => exact ⟨_, _, .unprepared hprepare⟩
  | true =>
      cases hdevices : (b.find fs mask state' hub).value.devices with
      | error failure => exact ⟨_, _, .failed hprepare rfl hdevices⟩
      | ok handles => exact ⟨_, _, .found hprepare rfl hdevices⟩

/-- Every backend takes its turn, whatever happened before. -/
theorem exists_session (backends : List (Backend τ δ)) (s : τ × Hub δ) :
    ∃ turns s', Session fs mask backends s turns s' := by
  induction backends generalizing s with
  | nil => exact ⟨[], s, .idle s⟩
  | cons b later ih =>
      obtain ⟨turn, s', hturn⟩ := b.exists_takes fs mask s
      obtain ⟨turns, s'', hlater⟩ := ih s'
      exact ⟨turn :: turns, s'', .turn hturn hlater⟩

/-- The turn of a backend stands between the turns of the others. -/
theorem Session.split {earlier later : List (Backend τ δ)} {b : Backend τ δ} {s s' : τ × Hub δ}
    {turns : List Turn} (h : Session fs mask (earlier ++ b :: later) s turns s') :
    ∃ before turn behind s₁ s₂, turns = before ++ turn :: behind ∧
      Session fs mask earlier s before s₁ ∧ b.Takes fs mask s₁ turn s₂ ∧
      Session fs mask later s₂ behind s' := by
  induction earlier generalizing s turns with
  | nil =>
      cases h with
      | turn hturn hlater => exact ⟨[], _, _, _, _, rfl, .idle _, hturn, hlater⟩
  | cons first earlier ih =>
      cases h with
      | turn hfirst hrest =>
          obtain ⟨before, turn, behind, s₁, s₂, rfl, hbefore, hturn, hbehind⟩ := ih hrest
          exact ⟨_ :: before, turn, behind, s₁, s₂, rfl, .turn hfirst hbefore, hturn, hbehind⟩

/-! ## What comes of a search -/

/-- What some turns bring. -/
def Survey.ofTurns (turns : List Turn) (s : τ × Hub δ) : Survey τ δ :=
  ⟨turns.flatMap Turn.handles, turns.filterMap Turn.unprepared?, s.1, s.2⟩

/-- A turn puts what it brings in front of what the later ones bring. -/
theorem Backend.Takes.value_survey {b : Backend τ δ} {later : List (Backend τ δ)}
    {s s' s'' : τ × Hub δ} {turn : Turn} {turns : List Turn} (h : b.Takes fs mask s turn s')
    (hlater : (Vendors.survey fs mask later s'.1 s'.2).value = .ofTurns turns s'') :
    (Vendors.survey fs mask (b :: later) s.1 s.2).value = .ofTurns (turn :: turns) s'' := by
  cases h with
  | unprepared hprepare =>
      simp only [Vendors.survey, hprepare, Bool.false_eq_true, if_false, Logged.value_bind,
        Logged.value_pure, hlater]
      rfl
  | failed hprepare hfind hdevices =>
      simp only [Vendors.survey, hprepare, if_true, Logged.value_bind, hfind, hdevices, hlater]
      rfl
  | found hprepare hfind hdevices =>
      unfold Backend.identifyAll at hlater
      simp only [Vendors.survey, hprepare, if_true, Logged.value_bind, Logged.value_pure, hfind,
        hdevices, hlater]
      rfl

theorem Session.value_survey {backends : List (Backend τ δ)} {s s' : τ × Hub δ}
    {turns : List Turn} (h : Session fs mask backends s turns s') :
    (Vendors.survey fs mask backends s.1 s.2).value = .ofTurns turns s' := by
  induction h with
  | idle s => rfl
  | turn hturn _ ih => exact hturn.value_survey ih

theorem Vendors.answer_eq_ok_iff {found handles : List Handle} :
    answer found = .ok handles ↔ handles = found ∧ handles ≠ [] := by
  cases found with
  | nil => exact iff_of_false (fun h => nomatch h) (fun ⟨h, hne⟩ => hne h)
  | cons h later =>
      refine ⟨fun hok => ?_, fun ⟨heq, _⟩ => congrArg Except.ok heq.symm⟩
      obtain rfl := Except.ok.inj hok
      exact ⟨rfl, List.cons_ne_nil h later⟩

theorem Vendors.answer_eq_error_iff {found : List Handle} {failure : Failure} :
    answer found = .error failure ↔ found = [] ∧ failure = .noDevices "supported" := by
  cases found with
  | nil =>
      exact ⟨fun h => ⟨rfl, (Except.error.inj h).symm⟩, fun ⟨_, h⟩ => congrArg Except.error h.symm⟩
  | cons h later => exact iff_of_false (fun h => nomatch h) (fun ⟨h, _⟩ => nomatch h)

/-- What a search answers is told by its turns, and so are the failures that it keeps; those of
earlier searches are forgotten. -/
theorem Session.value_find {vendors : Vendors τ δ} {s s' : τ × Hub δ} {turns : List Turn}
    (h : Session fs mask vendors.backends s turns s') :
    (vendors.find fs mask s.1 s.2).value =
      (⟨Vendors.answer (turns.flatMap Turn.handles), s'.1, s'.2⟩,
        { vendors with unprepared := turns.filterMap Turn.unprepared? }) := by
  unfold Vendors.find
  simp only [Logged.value_bind, Logged.value_pure, h.value_survey]
  rfl

/-! ## Who is asked what -/

/-- What a backend is asked in a search, by its place in the list. -/
inductive Asked where
  | prepare (place : Nat)
  | find (place : Nat)
deriving DecidableEq

/-- What is asked in a turn. -/
def Turn.asked (place : Nat) : Turn → List Asked
  | .unprepared _ => [.prepare place]
  | .failed _ => [.prepare place, .find place]
  | .found _ => [.prepare place, .find place]

/-- What is asked in the turns of the backends from a place on. -/
def askedFrom : Nat → List Turn → List Asked
  | _, [] => []
  | place, turn :: turns => turn.asked place ++ askedFrom (place + 1) turns

/-- A backend that writes down what it is asked and otherwise does as before. -/
def Backend.watched (b : Backend τ δ) (place : Nat) : Backend (τ × List Asked) δ where
  name := b.name
  prepare := fun (state, asked) =>
    let (ready, state) := b.prepare state
    (ready, state, asked ++ [.prepare place])
  release := fun (state, asked) => (b.release state, asked)
  lastFailure := fun (state, _) => b.lastFailure state
  find := fun fs mask (state, asked) hub => do
    let found ← b.find fs mask state hub
    pure ⟨found.devices, (found.state, asked ++ [.find place]), found.hub⟩
  identify := b.identify
  measure := b.measure
  closeCycle := b.closeCycle

/-- Some backends, the first of them at a place, each of them watched. -/
def watchedFrom : Nat → List (Backend τ δ) → List (Backend (τ × List Asked) δ)
  | _, [] => []
  | place, b :: later => b.watched place :: watchedFrom (place + 1) later

/-- The same backends, watched. -/
def Vendors.watched (vendors : Vendors τ δ) : Vendors (τ × List Asked) δ :=
  ⟨watchedFrom 0 vendors.backends, vendors.unprepared⟩

theorem Backend.prepare_watched {b : Backend τ δ} {state state' : τ} {ready : Bool}
    (h : b.prepare state = (ready, state')) (place : Nat) (asked : List Asked) :
    (b.watched place).prepare (state, asked) = (ready, state', asked ++ [.prepare place]) := by
  unfold Backend.watched
  simp only [h]

/-- Watching changes nothing about a turn. -/
theorem Backend.Takes.watched {b : Backend τ δ} {s s' : τ × Hub δ} {turn : Turn}
    (h : b.Takes fs mask s turn s') (place : Nat) (asked : List Asked) :
    (b.watched place).Takes fs mask ((s.1, asked), s.2) turn
      ((s'.1, asked ++ turn.asked place), s'.2) := by
  cases h with
  | unprepared hprepare => exact .unprepared (prepare_watched hprepare place asked)
  | failed hprepare hfind hdevices =>
      subst hfind
      rw [Turn.asked, List.append_cons]
      exact .failed (prepare_watched hprepare place asked) rfl hdevices
  | found hprepare hfind hdevices =>
      subst hfind
      rw [Turn.asked, List.append_cons]
      exact .found (prepare_watched hprepare place asked) rfl hdevices

/-- Watching changes nothing about a search, and every backend is asked in its turn alone. -/
theorem Session.watched {backends : List (Backend τ δ)} {s s' : τ × Hub δ} {turns : List Turn}
    (h : Session fs mask backends s turns s') (place : Nat) (asked : List Asked) :
    Session fs mask (watchedFrom place backends) ((s.1, asked), s.2) turns
      ((s'.1, asked ++ askedFrom place turns), s'.2) := by
  induction h generalizing place asked with
  | idle s =>
      rw [askedFrom, List.append_nil]
      exact .idle _
  | turn hturn _ ih =>
      rw [askedFrom, ← List.append_assoc]
      exact .turn (hturn.watched place asked) (ih (place + 1) _)

/-! ## Identification -/

/-- What stands under a handle, if anything does, is a device that was identified. -/
def Hub.Identified (fs : Snapshot) (hub : Hub δ) (h : Handle) : Prop :=
  ∀ d, hub.device? h = some d → ∃ d₀, d = Gpu.identify fs d₀

theorem Hub.identified_identify {hub : Hub δ} {h i : Handle}
    (hid : h = i ∨ hub.Identified fs i) : (hub.identify fs h).Identified fs i := by
  intro d hd
  unfold Hub.identify at hd
  rw [Hub.device?_modify] at hd
  split at hd
  · obtain ⟨d₀, -, rfl⟩ := Option.map_eq_some_iff.mp hd
    exact ⟨d₀, rfl⟩
  · rename_i hne
    exact hid.resolve_left hne d hd

/-- One after the other, each of some devices is identified, and none is made different again. -/
theorem Backend.identified_identifyAll {b : Backend τ δ}
    (hidentify : b.identify = fun fs h hub => hub.identify fs h) (handles : List Handle)
    {hub : Hub δ} {i : Handle} (hi : i ∈ handles ∨ hub.Identified fs i) :
    (b.identifyAll fs handles hub).Identified fs i := by
  induction handles generalizing hub with
  | nil => exact hi.resolve_left List.not_mem_nil
  | cons j later ih =>
      refine ih ?_
      rw [hidentify]
      rcases hi with hi | hi
      · rcases List.mem_cons.mp hi with rfl | hlater
        · exact .inr (Hub.identified_identify (.inl rfl))
        · exact .inl hlater
      · exact .inr (Hub.identified_identify (.inr hi))

/-- A backend without a way of its own to identify devices identifies every device that it finds,
in the same turn. -/
theorem Backend.Takes.identified {b : Backend τ δ} {s s' : τ × Hub δ} {turn : Turn}
    (h : b.Takes fs mask s turn s') (hidentify : b.identify = fun fs h hub => hub.identify fs h) :
    ∀ i ∈ turn.handles, s'.2.Identified fs i := by
  cases h with
  | unprepared _ => exact fun _ hi => absurd hi List.not_mem_nil
  | failed _ _ _ => exact fun _ hi => absurd hi List.not_mem_nil
  | found _ _ _ => exact fun i hi => identified_identifyAll hidentify _ (.inl hi)

/-! ## What is left in the hub -/

/-- There is a device under a handle, and it has a property. -/
def Hub.Shows (Shown : δ → Prop) (hub : Hub δ) (h : Handle) : Prop :=
  ∃ d, hub.device? h = some d ∧ Shown d

/-- There are listeners in a hub that were not in another one before, attached to some devices. -/
def Hub.Gained (hub hub' : Hub δ) (handles : List Handle) : Prop :=
  ∃ added, hub'.listeners = hub.listeners ++ added ∧ added.map (·.device) = handles

omit [Gpu δ] in
theorem Hub.Gained.trans {hub hub' hub'' : Hub δ} {handles handles' : List Handle}
    (h : hub.Gained hub' handles) (h' : hub'.Gained hub'' handles') :
    hub.Gained hub'' (handles ++ handles') := by
  obtain ⟨added, hlisteners, rfl⟩ := h
  obtain ⟨added', hlisteners', rfl⟩ := h'
  refine ⟨added ++ added', ?_, List.map_append⟩
  rw [hlisteners', hlisteners, List.append_assoc]

omit [Gpu δ] in
theorem Hub.Gained.keep {hub hub' hub'' : Hub δ} {handles : List Handle}
    (h : hub.Gained hub' handles) (hkept : hub''.listeners = hub'.listeners) :
    hub.Gained hub'' handles := by
  obtain ⟨added, hlisteners, hadded⟩ := h
  exact ⟨added, hkept.trans hlisteners, hadded⟩

omit [Gpu δ] in
theorem Hub.gained_nil {hub hub' : Hub δ} (h : hub'.listeners = hub.listeners) :
    hub.Gained hub' [] :=
  ⟨[], by rw [h, List.append_nil], rfl⟩

/-- A backend finds devices that are in the hub, takes none away, shows something of a device when
it identifies it, and never takes back what is shown. -/
structure Backend.Keeps (fs : Snapshot) (mask : Option UInt64) (Shown : δ → Prop)
    (b : Backend τ δ) : Prop where
  present_find (state : τ) (hub : Hub δ) :
    ∀ h ∈ (b.find fs mask state hub).value.handles,
      (b.find fs mask state hub).value.hub.Shows (fun _ => True) h
  find {state : τ} {hub : Hub δ} {h : Handle} :
    hub.Shows Shown h → (b.find fs mask state hub).value.hub.Shows Shown h
  present_identify {hub : Hub δ} {h : Handle} (i : Handle) :
    hub.Shows (fun _ => True) h → (b.identify fs i hub).Shows (fun _ => True) h
  identify {hub : Hub δ} {h : Handle} (i : Handle) :
    hub.Shows Shown h → (b.identify fs i hub).Shows Shown h
  identify_self {hub : Hub δ} {h : Handle} :
    hub.Shows (fun _ => True) h → (b.identify fs h hub).Shows Shown h

/-- A backend attaches one listener to every device that it finds, in their order, and no other. -/
structure Backend.Attaches (fs : Snapshot) (mask : Option UInt64) (b : Backend τ δ) : Prop where
  find (state : τ) (hub : Hub δ) :
    hub.Gained (b.find fs mask state hub).value.hub (b.find fs mask state hub).value.handles
  identify (hub : Hub δ) (h : Handle) : (b.identify fs h hub).listeners = hub.listeners

namespace Backend

variable {b : Backend τ δ} {Shown : δ → Prop}

theorem Keeps.identifyAll (hb : b.Keeps fs mask Shown) (handles : List Handle) {hub : Hub δ}
    {h : Handle} (hshown : hub.Shows Shown h) : (b.identifyAll fs handles hub).Shows Shown h := by
  induction handles generalizing hub with
  | nil => exact hshown
  | cons i later ih => exact ih (hb.identify i hshown)

theorem Keeps.identifyAll_self (hb : b.Keeps fs mask Shown) {handles : List Handle} {hub : Hub δ}
    (hpresent : ∀ h ∈ handles, hub.Shows (fun _ => True) h) :
    ∀ h ∈ handles, (b.identifyAll fs handles hub).Shows Shown h := by
  induction handles generalizing hub with
  | nil => exact fun _ h => absurd h List.not_mem_nil
  | cons i later ih =>
      intro h hmem
      rcases List.mem_cons.mp hmem with rfl | hlater
      · exact hb.identifyAll later (hb.identify_self (hpresent h hmem))
      · have hleft : ∀ j ∈ later, (b.identify fs i hub).Shows (fun _ => True) j :=
          fun j hj => hb.present_identify i (hpresent j (List.mem_cons_of_mem i hj))
        exact ih hleft h hlater

theorem Attaches.identifyAll (hb : b.Attaches fs mask) (handles : List Handle) (hub : Hub δ) :
    (b.identifyAll fs handles hub).listeners = hub.listeners := by
  induction handles generalizing hub with
  | nil => rfl
  | cons i later ih => exact (ih _).trans (hb.identify hub i)

variable {s s' : τ × Hub δ} {turn : Turn}

/-- A turn takes nothing back. -/
theorem Takes.shows (h : b.Takes fs mask s turn s') (hb : b.Keeps fs mask Shown) {i : Handle}
    (hshown : s.2.Shows Shown i) : s'.2.Shows Shown i := by
  cases h with
  | unprepared _ => exact hshown
  | failed _ hfind _ =>
      subst hfind
      exact hb.find hshown
  | found _ hfind _ =>
      subst hfind
      exact hb.identifyAll _ (hb.find hshown)

/-- Every device that is found in a turn is shown after it. -/
theorem Takes.shows_handles (h : b.Takes fs mask s turn s') (hb : b.Keeps fs mask Shown) :
    ∀ i ∈ turn.handles, s'.2.Shows Shown i := by
  cases h with
  | unprepared _ => exact fun _ hi => absurd hi List.not_mem_nil
  | failed _ _ _ => exact fun _ hi => absurd hi List.not_mem_nil
  | @found _ ready hub _ _ _ hfind hdevices =>
      subst hfind
      have hpresent := hb.present_find ready hub
      rw [Found.handles_of_ok hdevices] at hpresent
      exact hb.identifyAll_self hpresent

theorem Takes.gained (h : b.Takes fs mask s turn s') (hb : b.Attaches fs mask) :
    s.2.Gained s'.2 turn.handles := by
  cases h with
  | unprepared _ => exact Hub.gained_nil rfl
  | @failed _ ready hub _ _ _ hfind hdevices =>
      subst hfind
      have hgained := hb.find ready hub
      rwa [Found.handles_of_error hdevices] at hgained
  | @found _ ready hub _ _ _ hfind hdevices =>
      subst hfind
      have hgained := hb.find ready hub
      rw [Found.handles_of_ok hdevices] at hgained
      exact hgained.keep (hb.identifyAll _ _)

end Backend

namespace Session

variable {backends : List (Backend τ δ)} {s s' : τ × Hub δ} {turns : List Turn} {Shown : δ → Prop}

theorem shows (h : Session fs mask backends s turns s')
    (hbackends : ∀ b ∈ backends, b.Keeps fs mask Shown) {i : Handle} (hshown : s.2.Shows Shown i) :
    s'.2.Shows Shown i := by
  induction h with
  | idle s => exact hshown
  | turn hturn _ ih =>
      obtain ⟨hb, hlater⟩ := List.forall_mem_cons.mp hbackends
      exact ih hlater (hturn.shows hb hshown)

/-- Every device that was found is shown in the end. -/
theorem shows_handles (h : Session fs mask backends s turns s')
    (hbackends : ∀ b ∈ backends, b.Keeps fs mask Shown) :
    ∀ i ∈ turns.flatMap Turn.handles, s'.2.Shows Shown i := by
  induction h with
  | idle s => exact fun _ hi => absurd hi List.not_mem_nil
  | turn hturn hlater ih =>
      obtain ⟨hb, hbs⟩ := List.forall_mem_cons.mp hbackends
      intro i hi
      rcases List.mem_append.mp hi with hi | hi
      · exact hlater.shows hbs (hturn.shows_handles hb i hi)
      · exact ih hbs i hi

/-- The listeners of all turns stand behind each other as the devices do. -/
theorem gained (h : Session fs mask backends s turns s')
    (hbackends : ∀ b ∈ backends, b.Attaches fs mask) :
    s.2.Gained s'.2 (turns.flatMap Turn.handles) := by
  induction h with
  | idle s => exact Hub.gained_nil rfl
  | turn hturn _ ih =>
      obtain ⟨hb, hlater⟩ := List.forall_mem_cons.mp hbackends
      exact (hturn.gained hb).trans (ih hlater)

end Session

/-! ## Intel GPUs -/

/-- A backend that has no way of its own to identify devices keeps to the rule if its searches do
and every identified device shows what is to be shown. -/
theorem Backend.Keeps.of_identify {b : Backend τ δ} {Shown : δ → Prop}
    (hidentify : b.identify = fun fs h hub => hub.identify fs h)
    (hshown : ∀ d, Shown (Gpu.identify fs d))
    (hfound : ∀ state hub, ∀ h ∈ (b.find fs mask state hub).value.handles,
      (b.find fs mask state hub).value.hub.Shows (fun _ => True) h)
    (hfind : ∀ {state hub h d}, hub.device? h = some d →
      (b.find fs mask state hub).value.hub.device? h = some d) : b.Keeps fs mask Shown where
  present_find := hfound
  find := fun ⟨d, hd, hs⟩ => ⟨d, hfind hd, hs⟩
  present_identify := by
    rintro hub h i ⟨d, hd, -⟩
    rw [hidentify]
    unfold Hub.identify Hub.Shows
    rw [Hub.device?_modify, hd]
    split
    · exact ⟨Gpu.identify fs d, rfl, trivial⟩
    · exact ⟨d, rfl, trivial⟩
  identify := by
    rintro hub h i ⟨d, hd, hs⟩
    rw [hidentify]
    unfold Hub.identify Hub.Shows
    rw [Hub.device?_modify, hd]
    split
    · exact ⟨Gpu.identify fs d, rfl, hshown d⟩
    · exact ⟨d, rfl, hs⟩
  identify_self := by
    rintro hub h ⟨d, hd, -⟩
    rw [hidentify]
    unfold Hub.identify Hub.Shows
    rw [Hub.device?_modify, if_pos rfl, hd]
    exact ⟨Gpu.identify fs d, rfl, hshown d⟩

/-- A device, if it is a GPU of Intel, tells its address and whether it is a part of the
processor. -/
def HasIntel.ShowsAddress [HasIntel δ] (d : δ) : Prop :=
  ∀ gpu, intel? d = some gpu →
    gpu.identity.pdev = some gpu.pdev ∧
      gpu.identity.integrated = some (gpu.pdev = "0000:00:02.0" : Bool)

theorem IntelGpu.showsAddress_identify (gpu : IntelGpu) :
    HasIntel.ShowsAddress (Gpu.identify fs gpu) := by
  intro identified h
  obtain rfl := Option.some.inj h
  exact ⟨rfl, rfl⟩

namespace IntelBackend

variable [HasIntel δ]

omit [Gpu δ] in
/-- GPUs that are taken in stand behind the devices of the hub, under the next handles, and their
listeners behind those that were there. -/
theorem adoptAll_eq (hub : Hub δ) (gpus : List IntelGpu) :
    adoptAll hub gpus =
      let handles := (List.range' hub.pool.devices.length gpus.length).map Handle.mk
      (handles, ⟨⟨hub.pool.devices ++ gpus.map HasIntel.ofIntel⟩,
        hub.listeners ++ handles.map fun h => ⟨h, HasIntel.read⟩⟩) := by
  induction gpus generalizing hub with
  | nil =>
      simp only [adoptAll, List.length_nil, List.range'_zero, List.map_nil, List.append_nil]
  | cons gpu later ih =>
      simp only [adoptAll, ih, List.length_cons, List.range'_succ, List.map_cons]
      simp only [Hub.adopt, Hub.insert, Hub.attach, Pool.insert, Pool.next, List.length_append,
        List.length_singleton, List.append_assoc, List.singleton_append]

omit [Gpu δ] in
theorem device?_adoptAll {hub : Hub δ} {h : Handle} {d : δ} (hd : hub.device? h = some d)
    (gpus : List IntelGpu) : (adoptAll hub gpus).2.device? h = some d := by
  have hlt : h.index < hub.pool.devices.length := (List.getElem?_eq_some_iff.mp hd).1
  rw [adoptAll_eq]
  exact (List.getElem?_append_left hlt).trans hd

omit [Gpu δ] in
theorem present_adoptAll (hub : Hub δ) (gpus : List IntelGpu) :
    ∀ h ∈ (adoptAll hub gpus).1, (adoptAll hub gpus).2.Shows (fun _ => True) h := by
  rw [adoptAll_eq]
  intro h hmem
  obtain ⟨i, hi, rfl⟩ := List.mem_map.mp hmem
  have hlt : i < (hub.pool.devices ++ gpus.map HasIntel.ofIntel).length := by
    rw [List.length_append, List.length_map]
    exact (List.mem_range'_1.mp hi).2
  exact ⟨_, List.getElem?_eq_getElem hlt, trivial⟩

omit [Gpu δ] in
theorem gained_adoptAll (hub : Hub δ) (gpus : List IntelGpu) :
    hub.Gained (adoptAll hub gpus).2 (adoptAll hub gpus).1 := by
  rw [adoptAll_eq]
  refine ⟨_, rfl, ?_⟩
  rw [List.map_map]
  exact List.map_id _

/-- A search takes some GPUs in, none if it fails, and answers what it took in. -/
theorem exists_adoptAll (part : Part τ IntelBackend) (state : τ) (hub : Hub δ) :
    let found := ((backend part : Backend τ δ).find fs mask state hub).value
    ∃ gpus, found.hub = (adoptAll hub gpus).2 ∧ found.handles = (adoptAll hub gpus).1 := by
  simp only [backend, Logged.value_bind, Logged.value_pure]
  cases hcards : cards fs (part.get state).mounts with
  | error cause =>
      rw [value_find_of_error hcards]
      exact ⟨[], rfl, rfl⟩
  | ok cs =>
      rw [value_find hcards]
      exact ⟨_, rfl, Found.handles_answer⟩

variable {part : Part τ IntelBackend}

/-- The backend of Intel leaves devices as they are. -/
theorem keeps {Shown : δ → Prop} (hshown : ∀ d, Shown (Gpu.identify fs d)) :
    (backend part : Backend τ δ).Keeps fs mask Shown := by
  refine .of_identify rfl hshown ?_ ?_
  · intro state hub
    obtain ⟨gpus, hhub, hhandles⟩ := exists_adoptAll part state hub
    rw [hhub, hhandles]
    exact present_adoptAll hub gpus
  · intro state hub h d hd
    obtain ⟨gpus, hhub, -⟩ := exists_adoptAll part state hub
    rw [hhub]
    exact device?_adoptAll hd gpus

/-- The backend of Intel attaches a listener to every device that it finds. -/
theorem attaches : (backend part : Backend τ δ).Attaches fs mask where
  find := by
    intro state hub
    obtain ⟨gpus, hhub, hhandles⟩ := exists_adoptAll part state hub
    rw [hhub, hhandles]
    exact gained_adoptAll hub gpus
  identify _ _ := rfl

end IntelBackend

/-! ## All backends -/

variable [HasIntel δ]

/-- A search asks the backends in their order, each of them once for its preparation and, only if
this succeeds, once for its devices, on the states that the ones before it left. It answers all
devices that were found, in this order, or that there are none; it keeps one failure for each
backend that could not be prepared, with its name and its last failure, and none from before. Every
device is identified in the turn in which it is found. What identification shows of a device is
still shown in the end, unless a backend takes it back; so every GPU of Intel tells its address.
Where every backend attaches one listener to each device that it finds, the listeners of the search
are those of its devices. -/
theorem Vendors.find_turns (vendors : Vendors τ δ) (fs : Snapshot) (mask : Option UInt64)
    (state : τ) (hub : Hub δ) :
    ∃ turns state' hub', Session fs mask vendors.backends (state, hub) turns (state', hub') ∧
      let found := (vendors.find fs mask state hub).value.1
      let handles := turns.flatMap Turn.handles
      found.state = state' ∧ found.hub = hub' ∧
      (∀ hs, found.devices = .ok hs ↔ hs = handles ∧ hs ≠ []) ∧
      (∀ failure, found.devices = .error failure ↔
        handles = [] ∧ failure = .noDevices "supported") ∧
      (vendors.find fs mask state hub).value.2 =
        { vendors with unprepared := turns.filterMap Turn.unprepared? } ∧
      (vendors.watched.find fs mask (state, []) hub).value.1 =
        ⟨found.devices, (state', askedFrom 0 turns), hub'⟩ ∧
      (∀ earlier b later, vendors.backends = earlier ++ b :: later →
        ∃ before turn behind s₁ s₂, turns = before ++ turn :: behind ∧
          Session fs mask earlier (state, hub) before s₁ ∧ b.Takes fs mask s₁ turn s₂ ∧
          Session fs mask later s₂ behind (state', hub') ∧
          (b.identify = (fun fs h hub => hub.identify fs h) →
            ∀ h ∈ turn.handles, s₂.2.Identified fs h)) ∧
      (∀ Shown, (∀ b ∈ vendors.backends, b.Keeps fs mask Shown) →
        ∀ h ∈ handles, hub'.Shows Shown h) ∧
      ((∀ b ∈ vendors.backends, b.Keeps fs mask HasIntel.ShowsAddress) →
        ∀ h ∈ handles, ∃ d, hub'.device? h = some d ∧ ∀ gpu, HasIntel.intel? d = some gpu →
          gpu.identity.pdev = some gpu.pdev ∧
            gpu.identity.integrated = some (gpu.pdev = "0000:00:02.0" : Bool)) ∧
      ((∀ b ∈ vendors.backends, b.Attaches fs mask) →
        ∃ added, hub'.listeners = hub.listeners ++ added ∧ added.map (·.device) = handles) := by
  obtain ⟨turns, ⟨state', hub'⟩, h⟩ := exists_session vendors.backends (state, hub)
  have hwatched : Session fs mask vendors.watched.backends ((state, []), hub) turns
      ((state', askedFrom 0 turns), hub') := h.watched 0 []
  refine ⟨turns, state', hub', h, ?_⟩
  rw [h.value_find, hwatched.value_find]
  refine ⟨rfl, rfl, fun _ => answer_eq_ok_iff, fun _ => answer_eq_error_iff, rfl, rfl, ?_,
    fun _ hbackends => h.shows_handles hbackends, fun hbackends => h.shows_handles hbackends,
    h.gained⟩
  intro earlier b later hsplit
  rw [hsplit] at h
  obtain ⟨before, turn, behind, s₁, s₂, hturns, hbefore, hturn, hbehind⟩ := h.split
  exact ⟨before, turn, behind, s₁, s₂, hturns, hbefore, hturn, hbehind, hturn.identified⟩

end

/-- A backend that finds nothing. -/
def Backend.idle {τ δ : Type} [Gpu δ] (name : String) (ready : Bool) : Backend τ δ where
  name := name
  prepare := fun state => (ready, state)
  release := id
  lastFailure := fun _ => "no hardware"
  find := fun _ _ state hub => pure ⟨.error (.noDevices name), state, hub⟩

/-- The backend of Intel between one that cannot be prepared and one without devices. -/
def Vendors.three : Vendors IntelBackend IntelGpu where
  backends := [.idle "Broken" false, IntelBackend.backend .whole, .idle "Other" true]
  unprepared := [.unprepared "Other" "earlier"]

theorem Vendors.find_turns_three :
    let result := (three.find IntelBackend.oneCard none { mounts := .usual } .empty).value
    result.1.devices = .ok [⟨0⟩] ∧
      result.2.unprepared = [.unprepared "Broken" "no hardware"] ∧
      (∃ gpu, result.1.hub.device? ⟨0⟩ = some gpu ∧ gpu.identity.pdev = some gpu.pdev ∧
        gpu.identity.integrated = some (gpu.pdev = "0000:00:02.0" : Bool)) ∧
      result.1.hub.listeners.map (·.device) = [⟨0⟩] := by
  intro result
  obtain ⟨turns, state', hub', -, -, hhub, hok, -, -, -, -, -, hshows, hattached⟩ :=
    find_turns three IntelBackend.oneCard none { mounts := .usual } .empty
  have hdevices : result.1.devices = .ok [⟨0⟩] ∧
      result.2.unprepared = [.unprepared "Broken" "no hardware"] := by
    decide +kernel
  have hhandles := ((hok [⟨0⟩]).mp hdevices.1).1
  have hkeeps : ∀ b ∈ three.backends, b.Keeps IntelBackend.oneCard none HasIntel.ShowsAddress := by
    have hidle (name : String) (ready : Bool) : (Backend.idle name ready :
        Backend IntelBackend IntelGpu).Keeps IntelBackend.oneCard none HasIntel.ShowsAddress :=
      .of_identify rfl IntelGpu.showsAddress_identify
        (fun _ _ _ hmem => absurd hmem List.not_mem_nil) id
    simp only [three, List.forall_mem_cons]
    exact ⟨hidle _ _, IntelBackend.keeps IntelGpu.showsAddress_identify, hidle _ _,
      fun _ hmem => absurd hmem List.not_mem_nil⟩
  have hattaches : ∀ b ∈ three.backends, b.Attaches IntelBackend.oneCard none := by
    have hidle (name : String) (ready : Bool) : (Backend.idle name ready :
        Backend IntelBackend IntelGpu).Attaches IntelBackend.oneCard none :=
      ⟨fun _ _ => Hub.gained_nil rfl, fun _ _ => rfl⟩
    simp only [three, List.forall_mem_cons]
    exact ⟨hidle _ _, IntelBackend.attaches, hidle _ _,
      fun _ hmem => absurd hmem List.not_mem_nil⟩
  refine ⟨hdevices.1, hdevices.2, ?_, ?_⟩
  · obtain ⟨gpu, hgpu, hshown⟩ := hshows hkeeps ⟨0⟩ (hhandles ▸ List.mem_singleton_self _)
    exact ⟨gpu, (congrArg (·.device? ⟨0⟩) hhub).trans hgpu, hshown gpu rfl⟩
  · obtain ⟨added, hlisteners, hadded⟩ := hattached hattaches
    rw [hhub, hlisteners, hhandles, ← hadded]
    rfl

end DrmUsage
