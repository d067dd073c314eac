-- SUMMARY: A record goes to the first listener that accepts it when the listeners are consulted one by one, and nobody behind it is asked.
import Mathlib.Data.Nat.Find
import DrmUsage.Hub
import DrmUsage.Text.Encoding

/-!
# The first listener that accepts

Listeners may do what they like with their devices and with the usage that they are handed, also
where they reject a record, and several of them may be attached to one device. To consult a
listener is to offer it alone a fresh stream of the whole record and the usage as it was before
anybody was asked (`Hub.consult`). An offer to all listeners is then no more than this: they are
consulted in order, as many as it takes, and what the first that accepts makes of the record is
the answer (`Hub.offer_first_acceptance`).
-/

namespace DrmUsage

namespace Hub

variable {δ : Type}

/-! ## One listener after the other -/

section

variable (now : Instant) (record : String) (usage : Usage)

/-- The hub after the first `count` listeners were consulted in order, whatever they answered. -/
def consultFirst (hub : Hub δ) : Nat → Logged (Hub δ)
  | 0 => pure hub
  | count + 1 => do
    let hub ← hub.consultFirst count
    let answer ← hub.offerTo ⟨count⟩ now
      (Text.Source.finished record.toByteArray.data.toList) usage
    pure answer.state

/-- What a listener makes of a record after all those before it were consulted. -/
def consult (hub : Hub δ) (place : Nat) : Logged (Outcome (Hub δ)) := do
  let hub ← hub.consultFirst now record usage place
  (·.toOutcome) <$> hub.offerTo ⟨place⟩ now
    (Text.Source.finished record.toByteArray.data.toList) usage

end

variable {now : Instant} {record : String} {usage : Usage} {hub : Hub δ} {place : Nat}

theorem consultFirst_succ (hub : Hub δ) (count : Nat) :
    hub.consultFirst now record usage (count + 1) =
      (·.state) <$> hub.consult now record usage count := by
  simp only [consultFirst, consult, map_bind, Functor.map_map, bind_pure_comp]

theorem listeners_consultFirst (now : Instant) (record : String) (usage : Usage) (hub : Hub δ)
    (count : Nat) : (hub.consultFirst now record usage count).value.listeners = hub.listeners := by
  induction count with
  | zero => rfl
  | succ count ih =>
      rw [consultFirst_succ, Logged.value_map, consult, Logged.value_bind, Logged.value_map,
        listeners_offerTo, ih]

/-- A listener is consulted on the devices that those before it left. -/
theorem consult_eq {l : Listener δ} (hl : hub.listeners[place]? = some l) :
    hub.consult now record usage place = (hub.consultFirst now record usage place >>= fun before =>
      (·.map fun pool => { hub with pool }) <$>
        l.offerRecord now record usage before.pool) := by
  rw [consult, Text.Source.finished_toByteArray]
  apply Logged.bind_congr_value
  simp only [offerTo, listeners_consultFirst, hl, Listener.offerRecord, Functor.map_map,
    ReadOutcome.map]

/-- Behind the last listener there is nobody to accept a record. -/
theorem lt_size_of_accepted (h : (hub.consult now record usage place).value.accepted = true) :
    place < hub.size := by
  by_contra hge
  have hnone : hub.listeners[place]? = none := List.getElem?_eq_none (Nat.le_of_not_lt hge)
  rw [consult, Logged.value_bind, Logged.value_map, offerTo, listeners_consultFirst, hnone] at h
  exact Bool.false_ne_true h

/-! ## Offers in turn -/

/-- The answer of an offer in turn with `count` more rejections before it. -/
def furtherBy (count : Nat) (answer : Option (Nat × Usage) × Pool δ) :
    Option (Nat × Usage) × Pool δ :=
  (answer.1.map fun (rejections, reported) => (rejections + count, reported), answer.2)

theorem furtherBy_zero (answer : Option (Nat × Usage) × Pool δ) : furtherBy 0 answer = answer := by
  obtain ⟨found, pool⟩ := answer
  cases found <;> rfl

theorem furtherBy_furtherBy (m n : Nat) (answer : Option (Nat × Usage) × Pool δ) :
    furtherBy m (furtherBy n answer) = furtherBy (n + m) answer := by
  obtain ⟨found, pool⟩ := answer
  cases found with
  | none => rfl
  | some found => simp only [furtherBy, Option.map_some, Nat.add_assoc]

theorem offerInTurn_cons_of_accepted {l : Listener δ} {pool : Pool δ}
    (h : (l.offerRecord now record usage pool).value.accepted = true) (later : List (Listener δ)) :
    offerInTurn now record usage (l :: later) pool =
      (fun answer => (some (0, answer.usage), answer.state)) <$>
        l.offerRecord now record usage pool := by
  rw [offerInTurn, ← bind_pure_comp]
  apply Logged.bind_congr_value
  rw [if_pos h]

theorem offerInTurn_cons_of_rejected {l : Listener δ} {pool : Pool δ}
    (h : (l.offerRecord now record usage pool).value.accepted = false) (later : List (Listener δ)) :
    offerInTurn now record usage (l :: later) pool =
      (l.offerRecord now record usage pool >>= fun answer =>
        furtherBy 1 <$> offerInTurn now record usage later answer.state) := by
  rw [offerInTurn]
  apply Logged.bind_congr_value
  rw [if_neg (Bool.eq_false_iff.mp h), ← bind_pure_comp]
  rfl

/-- Once some listeners have rejected a record, it is offered to the others as if these were the
only ones, on the devices that the former left. -/
theorem offerInTurn_of_rejected {count : Nat} (hcount : count ≤ hub.size)
    (hrejected : ∀ j < count, (hub.consult now record usage j).value.accepted = false) :
    offerInTurn now record usage hub.listeners hub.pool =
      (hub.consultFirst now record usage count >>= fun before => furtherBy count <$>
        offerInTurn now record usage (hub.listeners.drop count) before.pool) := by
  induction count with
  | zero =>
      rw [consultFirst, pure_bind, List.drop_zero, funext furtherBy_zero, id_map']
  | succ count ih =>
      have hl : hub.listeners[count]? = some hub.listeners[count] := List.getElem?_eq_getElem hcount
      have hrejects := hrejected count (Nat.lt_succ_self count)
      rw [consult_eq hl, Logged.value_bind, Logged.value_map] at hrejects
      rw [ih (Nat.le_of_succ_le hcount) fun j hj => hrejected j (Nat.lt_succ_of_lt hj),
        consultFirst_succ, consult_eq hl, List.drop_eq_getElem_cons hcount]
      -- The listener at this place rejects only the devices that it is really offered.
      simp only [map_bind, bind_assoc, Functor.map_map, bind_map_left]
      apply Logged.bind_congr_value
      rw [offerInTurn_cons_of_rejected hrejects, map_bind]
      simp only [Functor.map_map, furtherBy_furtherBy, Nat.add_comm 1, Outcome.map]

/-! ## Offers to all -/

/-- An offer to all comes to what the first listener that accepts makes of it when consulted. -/
theorem offer_of_accepted (hplace : place < hub.size)
    (haccepted : (hub.consult now record usage place).value.accepted = true)
    (hrejected : ∀ j < place, (hub.consult now record usage j).value.accepted = false) :
    hub.offer now record usage =
      (fun answer => ⟨some ⟨place⟩, answer.usage, answer.state⟩) <$>
        hub.consult now record usage place := by
  have hl : hub.listeners[place]? = some hub.listeners[place] := List.getElem?_eq_getElem hplace
  have haccepts := haccepted
  rw [consult_eq hl, Logged.value_bind, Logged.value_map] at haccepts
  unfold offer
  rw [offerInTurn_of_rejected (Nat.le_of_lt hplace) hrejected, consult_eq hl,
    List.drop_eq_getElem_cons hplace]
  simp only [map_bind, bind_assoc, Functor.map_map]
  apply Logged.bind_congr_value
  rw [offerInTurn_cons_of_accepted haccepts]
  simp only [Functor.map_map, bind_map_left, furtherBy, Option.map_some, Nat.zero_add,
    bind_pure_comp, Outcome.map]

/-- An offer that every listener rejects leaves the usage as it was, whatever they wrote. -/
theorem offer_of_rejected
    (hrejected : ∀ j < hub.size, (hub.consult now record usage j).value.accepted = false) :
    hub.offer now record usage = (hub.consultFirst now record usage hub.size >>= fun hub => do
      Logged.note (.recordUnmatched usage.pid)
      pure ⟨none, usage, hub⟩) := by
  have hlisteners := listeners_consultFirst now record usage hub hub.size
  have hnobody : hub.listeners.drop hub.size = [] := List.drop_length
  unfold offer
  rw [offerInTurn_of_rejected (Nat.le_refl _) hrejected, hnobody]
  rw [bind_assoc]
  apply Logged.bind_congr_value
  simp only [offerInTurn, map_pure, pure_bind, furtherBy, Option.map_none, ← hlisteners]

/-- Some listener is the first to accept, or all of them reject. -/
theorem exists_first_or_rejected (hub : Hub δ) (now : Instant) (record : String) (usage : Usage) :
    (∃ place, (hub.consult now record usage place).value.accepted = true ∧
      ∀ j < place, (hub.consult now record usage j).value.accepted = false) ∨
    ∀ place, (hub.consult now record usage place).value.accepted = false := by
  by_cases hsome : ∃ place, (hub.consult now record usage place).value.accepted = true
  · left
    exact ⟨Nat.find hsome, Nat.find_spec hsome,
      fun j hj => Bool.eq_false_iff.mpr (Nat.find_min hsome hj)⟩
  · right
    exact fun place => Bool.eq_false_iff.mpr fun h => hsome ⟨place, h⟩

/-- An offer goes to a listener exactly if, consulted in order, it is the first that accepts. What
is reported is then what this listener made of the usage, the devices are as this listener and
those before it left them, and nothing is noted but what these noted. An offer goes to nobody
exactly if all listeners reject it. The usage is then as it was, the devices are as all listeners
left them, and the one thing noted besides is that the record fits nobody. -/
theorem offer_first_acceptance (hub : Hub δ) (now : Instant) (record : String) (usage : Usage) :
    let offered := hub.offer now record usage
    let answers := hub.consult now record usage
    let all := hub.consultFirst now record usage hub.size
    (∀ place, offered.value.listener = some ⟨place⟩ ↔
      (answers place).value.accepted = true ∧ ∀ j < place, (answers j).value.accepted = false) ∧
    (∀ place, offered.value.listener = some ⟨place⟩ →
      offered.value.usage = (answers place).value.usage ∧
      offered.value.hub = (answers place).value.state ∧
      offered.events = (answers place).events) ∧
    (offered.value.listener = none ↔ ∀ j < hub.size, (answers j).value.accepted = false) ∧
    (offered.value.listener = none →
      offered.value.usage = usage ∧ offered.value.hub = all.value ∧
      offered.events = all.events ++ [.recordUnmatched usage.pid]) := by
  intro offered answers all
  rcases exists_first_or_rejected hub now record usage with ⟨first, haccepted, hrejected⟩ | hnone
  · have hfirst : first < hub.size := lt_size_of_accepted haccepted
    have hoffered : offered =
        (fun answer => ⟨some ⟨first⟩, answer.usage, answer.state⟩) <$> answers first :=
      offer_of_accepted hfirst haccepted hrejected
    have hlistener : offered.value.listener = some ⟨first⟩ := by rw [hoffered, Logged.value_map]
    rw [hlistener]
    refine ⟨fun place => ⟨?_, ?_⟩, ?_, ?_, fun h => absurd h (Option.some_ne_none _)⟩
    · rintro ⟨⟩
      exact ⟨haccepted, hrejected⟩
    · rintro ⟨hplace, hbefore⟩
      -- Neither of two first listeners stands before the other.
      rcases Nat.lt_trichotomy first place with hlt | rfl | hlt
      · exact absurd ((hbefore first hlt).symm.trans haccepted) Bool.false_ne_true
      · rfl
      · exact absurd ((hrejected place hlt).symm.trans hplace) Bool.false_ne_true
    · rintro place ⟨⟩
      rw [hoffered, Logged.value_map, Logged.events_map]
      exact ⟨rfl, rfl, rfl⟩
    · refine iff_of_false (Option.some_ne_none _) fun hall => ?_
      exact absurd ((hall first hfirst).symm.trans haccepted) Bool.false_ne_true
  · have hoffered : offered = (all >>= fun hub => do
        Logged.note (.recordUnmatched usage.pid)
        pure ⟨none, usage, hub⟩) := offer_of_rejected fun j _ => hnone j
    have hlistener : offered.value.listener = none := by
      rw [hoffered, Logged.value_bind, Logged.value_bind, Logged.value_pure]
    rw [hlistener]
    refine ⟨fun place => ?_, fun place h => absurd h.symm (Option.some_ne_none _), ?_, fun _ => ?_⟩
    · refine iff_of_false (Option.some_ne_none _).symm fun ⟨hplace, _⟩ => ?_
      exact absurd ((hnone place).symm.trans hplace) Bool.false_ne_true
    · exact iff_of_true rfl fun j _ => hnone j
    · rw [hoffered]
      exact ⟨rfl, rfl, rfl⟩

/-- Two listeners of one device: what the first does to the device stays; what it writes does not,
and what it reads the second reads again. The third is not asked. -/
example :
    let rejects : Reader Nat := fun _ _ usage d =>
      pure ⟨⟨false, { usage with renderTime := some 5 }, d + 1⟩, ⟨[]⟩⟩
    let takes : Reader Nat := fun _ source usage d =>
      pure ⟨⟨d = 1 ∧ source = .ofText "x", { usage with decodeTime := some 6 }, d + 10⟩, ⟨[]⟩⟩
    let hub : Hub Nat := ⟨⟨[0]⟩, [⟨⟨0⟩, rejects⟩, ⟨⟨0⟩, takes⟩, ⟨⟨0⟩, rejects⟩]⟩
    let offered := (hub.offer ⟨0⟩ "x" (.ofPid 7)).value
    offered.listener = some ⟨1⟩ ∧ offered.hub.device? ⟨0⟩ = some 11 ∧
      offered.usage = { Usage.ofPid 7 with decodeTime := some 6 } := by
  decide

end Hub

end DrmUsage
