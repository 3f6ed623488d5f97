import Stockroom.Broker.Basic
import Stockroom.Date
import Stockroom.Store.Basic

/-!
# The world of a relay

A relay works on a store that others use too, with a broker, while time passes. Time passes only
while the relay waits, and what others have planned for a time is done when that time comes. Storage
takes no time unless it is in trouble.

Main statements: `World.waits_elapse` and `World.waits_storageCall`, what waiting leaves alone.
-/
namespace Stockroom.Relay

/-- Something that somebody else does to the store. What comes of it is told in a diary. -/
structure Appointment (δ : Type) where
  /-- When, in nanoseconds of the relay's clock. -/
  time : Nat
  act : Store → δ → Store × δ

/-- An attempt to publish a message, and when it began. -/
structure Attempt where
  time : Nat
  message : Message
  deriving DecidableEq

/-- Where the clock of a relay ends: no reading of it comes to so many nanoseconds. -/
def clockEnd : Nat := 2 ^ 63 * 10 ^ 9

/-- Everything around a relay. -/
structure World (β δ : Type) where
  store : Store
  broker : β
  /-- Nanoseconds on the clock of the relay. -/
  now : Nat
  /-- What a calendar shows at a time on that clock. -/
  calendar : Nat → Date
  /-- How long the next storage calls take, as far as they take any time; nothing where one never
    ends. -/
  storage : List (Option Duration)
  /-- What others are going to do, in the order in which they will. -/
  agenda : List (Appointment δ)
  /-- What has come of what others have done. -/
  diary : δ
  /-- Every attempt to publish so far, oldest first. -/
  attempts : List Attempt

namespace World

variable {β δ α : Type}

/-- Do what is due at a time. -/
def keep (time : Nat) : List (Appointment δ) → World β δ → World β δ
  | [], w => { w with agenda := [] }
  | a :: rest, w =>
    if a.time ≤ time then
      let (store, diary) := a.act w.store w.diary
      keep time rest { w with store, diary }
    else { w with agenda := a :: rest }

/-- Let time pass. -/
def elapse (w : World β δ) (nanos : Nat) : World β δ :=
  let time := w.now + nanos
  { keep time w.agenda w with now := time }

/-- What the calendar shows. -/
def today (w : World β δ) : Date := w.calendar w.now

/-- Do something to the store. -/
def onStore (op : Date → Store → Except Fault α × Store) (w : World β δ) :
    Except Fault α × World β δ :=
  let (result, store) := op w.today w.store
  (result, { w with store })

/-- Do something to the store and wait for it, up to a limit. What takes longer is done
  nevertheless, but nobody learns what came of it. -/
def storageCall (limit : Duration) (op : Date → Store → Except Fault α × Store)
    (w : World β δ) : Except Fault α × World β δ :=
  match w.storage with
  | [] => w.onStore op
  | time :: storage =>
    let w := { w with storage }
    match time.filter (· ≤ limit) with
    | some time => (w.elapse time.nanos).onStore op
    | none => (.error (.timedOut limit), ((w.elapse limit.nanos).onStore op).2)

/-- Publish a message and wait for the reply, up to a limit. -/
def publish [Broker β] (limit : Duration) (m : Message) (w : World β δ) :
    Except PublishFault Unit × World β δ :=
  let (reply, broker) := Broker.publish m w.broker
  let w := { w with
    broker
    attempts := w.attempts ++ [Attempt.mk w.now m]
    storage := reply.storage ++ w.storage }
  match reply.after.filter (· ≤ limit) with
  | some time => (reply.outcome, w.elapse time.nanos)
  | none => (.error (.timedOut limit), w.elapse limit.nanos)

/-! ## What waiting leaves alone -/

/-- From one world to the other time may have passed, with all that others do in it, but nothing was
  published. -/
structure Waits (w w' : World β δ) : Prop where
  broker : w'.broker = w.broker
  calendar : w'.calendar = w.calendar
  attempts : w'.attempts = w.attempts
  storage : w'.storage <:+ w.storage
  now : w.now ≤ w'.now

theorem Waits.refl (w : World β δ) : w.Waits w :=
  ⟨rfl, rfl, rfl, List.suffix_refl _, Nat.le_refl _⟩

/-- Others change the store and the diary, and have fewer plans left. -/
theorem keep_changes (time : Nat) (agenda : List (Appointment δ)) (w : World β δ) :
    ∃ store diary left, keep time agenda w = { w with store, diary, agenda := left } := by
  induction agenda generalizing w with
  | nil => exact ⟨_, _, _, rfl⟩
  | cons a agenda ih =>
    rw [keep]
    split
    · exact ih _
    · exact ⟨_, _, _, rfl⟩

theorem waits_elapse (w : World β δ) (nanos : Nat) : w.Waits (w.elapse nanos) := by
  obtain ⟨store, diary, left, hkeep⟩ := keep_changes (w.now + nanos) w.agenda w
  rw [elapse, hkeep]
  exact ⟨rfl, rfl, rfl, List.suffix_refl _, Nat.le_add_right _ _⟩

/-- So does a storage call, whether its result arrives or not. -/
theorem waits_storageCall (limit : Duration) (op : Date → Store → Except Fault α × Store)
    (w : World β δ) : w.Waits (w.storageCall limit op).2 := by
  rw [storageCall]
  split
  · exact ⟨rfl, rfl, rfl, List.suffix_refl _, Nat.le_refl _⟩
  · next time storage hstorage =>
    have hwaits (nanos : Nat) : w.Waits (World.onStore op (elapse { w with storage } nanos)).2 := by
      obtain ⟨hbroker, hcalendar, hattempts, hrest, hnow⟩ := waits_elapse { w with storage } nanos
      refine ⟨hbroker, hcalendar, hattempts, hrest.trans ?_, hnow⟩
      rw [hstorage]
      exact List.suffix_cons time storage
    dsimp only
    split
    · exact hwaits _
    · exact hwaits _

theorem Waits.of_storageCall {limit : Duration} {op : Date → Store → Except Fault α × Store}
    {w w' : World β δ} {result : Except Fault α} (h : w.storageCall limit op = (result, w')) :
    w.Waits w' := by
  have hwaits := waits_storageCall limit op w
  rw [h] at hwaits
  exact hwaits

end World

end Stockroom.Relay
