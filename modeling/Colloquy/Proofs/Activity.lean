import Colloquy.Activity
import Mathlib.Data.List.Forall2
import Mathlib.Tactic.Common

/-!
# What activities keep

An activity obeys a relation between states and a condition on results when every change that it may
make stays within the relation and every result that it may come to meets the condition.  The notion
looks at single changes and not at whole runs, because side by side the changes of one activity
stand between those of another: a relation that one change keeps is kept however the changes are
mixed.

Every way to build an activity keeps the notion (`Obeys.bind`, `Obeys.beside`, `obeys_together` and
so on), and `Obeys.run` says what it comes to for a run from start to end.

Of a log that the changes write to, more can be said: an activity writes a row of items when it adds
just these before it is done, whatever the states it meets.  Several activities that announce
themselves, each with an item before anything else, write their items in order, also when they run
side by side, because each of them starts before any of them waits (`writes_together`).
-/

namespace Colloquy.Activity

variable {σ τ α β : Type}

/-- Every change that the activity may make is within `R`, and every result meets `P`. -/
def Obeys (R : σ → σ → Prop) (P : α → Prop) : Activity σ α → Prop
  | done a => P a
  | step act next => (∀ s, R s (act s)) ∧ ∀ s, (next s).Obeys R P
  | wait _ next => next.Obeys R P

variable {R : σ → σ → Prop} {P : α → Prop} {Q : β → Prop}

lemma Obeys.mono {S : σ → σ → Prop} {P' : α → Prop} {x : Activity σ α} (hx : x.Obeys R P)
    (hR : ∀ s t, R s t → S s t) (hP : ∀ a, P a → P' a) : x.Obeys S P' := by
  induction x with
  | done a => exact hP a hx
  | step act next ih => exact ⟨fun s => hR _ _ (hx.1 s), fun s => ih s (hx.2 s)⟩
  | wait ms next ih => exact ih hx

lemma Obeys.bind {x : Activity σ α} {f : α → Activity σ β} (hx : x.Obeys R P)
    (hf : ∀ a, P a → (f a).Obeys R Q) : (x.bind f).Obeys R Q := by
  induction x with
  | done a => exact hf a hx
  | step act next ih => exact ⟨hx.1, fun s => ih s (hx.2 s)⟩
  | wait ms next ih => exact ih hx

lemma Obeys.map {f : α → β} {x : Activity σ α} (hx : x.Obeys R P) (hf : ∀ a, P a → Q (f a)) :
    (x.map f).Obeys R Q :=
  hx.bind fun a ha => hf a ha

/-- An activity of a part of the state obeys whatever a change of that part keeps. -/
lemma obeys_lift {S : τ → τ → Prop} {get : τ → σ} {set : σ → τ → τ} (h : ∀ s t, S t (set s t))
    (x : Activity σ α) : (x.lift get set).Obeys S fun _ => True := by
  induction x with
  | done a => trivial
  | step act next ih => exact ⟨fun t => h _ t, fun t => ih (get t)⟩
  | wait ms next ih => exact ih

/-! ## Side by side and in order -/

/-- The second activity keeps its law while the first waits, if what is left of both does. -/
lemma obeys_during {P : α × β → Prop} {resume : Activity σ β → Activity σ (α × β)}
    (h : ∀ y : Activity σ β, y.Obeys R Q → (resume y).Obeys R P) {y : Activity σ β}
    (hy : y.Obeys R Q) (ms : Nat) : (during resume ms y).Obeys R P := by
  induction y generalizing ms with
  | done b => exact h (done b) hy
  | step act next ih => exact ⟨hy.1, fun s => ih s (hy.2 s) ms⟩
  | wait n next ih =>
    rw [during]
    split
    · exact h _ hy
    · split
      · exact ih hy _
      · exact h _ hy

lemma Obeys.beside {x : Activity σ α} {y : Activity σ β} (hx : x.Obeys R P) (hy : y.Obeys R Q) :
    (x.beside y).Obeys R fun ab => P ab.1 ∧ Q ab.2 := by
  induction x generalizing y with
  | done a => exact hy.map fun b hb => ⟨hx, hb⟩
  | step act next ih => exact ⟨hx.1, fun s => ih s (hx.2 s) hy⟩
  | wait ms next ih => exact obeys_during (fun z hz => ih hx hz) hy ms

variable {ι : Type} {f : ι → Activity σ α} {T : ι → α → Prop}

/-- Side by side, each activity comes to a result of its own kind. -/
lemma obeys_together {is : List ι} (h : ∀ i ∈ is, (f i).Obeys R (T i)) :
    (together (is.map f)).Obeys R fun as => List.Forall₂ T is as := by
  induction is with
  | nil => exact List.Forall₂.nil
  | cons i is ih =>
    have hi : (f i).Obeys R (T i) := h i List.mem_cons_self
    have hrest := ih fun j hj => h j (List.mem_cons_of_mem i hj)
    exact (hi.beside hrest).map fun ab hab => List.Forall₂.cons hab.1 hab.2

/-- One after the other, each activity comes to a result of its own kind. -/
lemma obeys_inOrder {is : List ι} (h : ∀ i ∈ is, (f i).Obeys R (T i)) :
    (inOrder (is.map f)).Obeys R fun as => List.Forall₂ T is as := by
  induction is with
  | nil => exact List.Forall₂.nil
  | cons i is ih =>
    have hi : (f i).Obeys R (T i) := h i List.mem_cons_self
    have hrest := ih fun j hj => h j (List.mem_cons_of_mem i hj)
    exact hi.bind fun a ha => hrest.map fun as has => List.Forall₂.cons ha has

/-! ## Breaking off -/

lemma Obeys.within {x : Activity σ α} (hx : x.Obeys R P) (limit : Nat) :
    (within limit x).Obeys R fun o => ∀ a, o = some a → P a := by
  induction x generalizing limit with
  | done a =>
    intro b hb
    obtain rfl : a = b := Option.some.inj hb
    exact hx
  | step act next ih => exact ⟨hx.1, fun s => ih s (hx.2 s) limit⟩
  | wait ms next ih =>
    rw [Activity.within]
    split
    · exact ih hx _
    · rw [sleep]
      split <;> exact fun a ha => by cases ha

/-- Breaking off comes to no result, so it meets every condition on results. -/
lemma Obeys.unless {x : Activity σ (Option α)} (hx : x.Obeys R fun o => ∀ a, o = some a → P a)
    (stop : Bool) : Obeys R (fun o => ∀ a, o = some a → P a) (if stop then done none else x) := by
  by_cases h : stop = true
  · rw [if_pos h]
    exact fun a ha => by cases ha
  · rwa [if_neg h]

lemma Obeys.unlessWaiting (hR : ∀ s, R s s) (stop : σ → Bool) {x : Activity σ α}
    (hx : x.Obeys R P) : (x.unlessWaiting stop).Obeys R fun o => ∀ a, o = some a → P a := by
  induction x with
  | done a =>
    intro b hb
    obtain rfl : a = b := Option.some.inj hb
    exact hx
  | step act next ih => exact ⟨hx.1, fun s => ih s (hx.2 s)⟩
  | wait ms next ih =>
    have waiting : (Activity.wait ms (next.unlessWaiting stop)).Obeys R _ := ih hx
    exact ⟨hR, fun s => waiting.unless (stop s)⟩

lemma Obeys.guarded (hR : ∀ s, R s s) (stop : σ → Bool) {x : Activity σ α} (hx : x.Obeys R P) :
    (x.guarded stop).Obeys R fun o => ∀ a, o = some a → P a :=
  ⟨hR, fun s => (hx.unlessWaiting hR stop).unless (stop s)⟩

/-- Of an activity that is done, nothing is left to break off but its result. -/
lemma run_guarded_done (stop : σ → Bool) (a : α) (s : σ) :
    ((done a).guarded stop).run s = (s, if stop s then none else some a) := by
  show Activity.run (if stop s then done none else done (some a)) s = _
  split <;> rfl

/-! ## Runs -/

/-- A run of an activity that obeys a reflexive and transitive relation stays within the relation
from its first state to its last. -/
theorem Obeys.run (hR : ∀ s, R s s) (hT : ∀ s t u, R s t → R t u → R s u) {x : Activity σ α}
    (hx : x.Obeys R P) (s : σ) : R s (x.run s).1 ∧ P (x.run s).2 := by
  induction x generalizing s with
  | done a => exact ⟨hR s, hx⟩
  | step act next ih =>
    have hrest := ih s (hx.2 s) (act s)
    exact ⟨hT s (act s) _ (hx.1 s) hrest.1, hrest.2⟩
  | wait ms next ih => exact ih hx s

/-! ## Logs -/

variable {ε : Type} {log : σ → List ε} {items : List ε}

/-- The change leaves the log alone. -/
def Keeps (log : σ → List ε) (s t : σ) : Prop := log t = log s

/-- The activity adds the items to the log, in this order, before it is done. -/
def Writes (log : σ → List ε) : Activity σ α → List ε → Prop
  | done _, items => items = []
  | step act next, items => ∀ s, ∃ front rest,
      items = front ++ rest ∧ log (act s) = log s ++ front ∧ (next s).Writes log rest
  | wait _ next, items => next.Writes log items

/-- The activity adds an item to the log at once and then leaves the log alone. -/
def Announces (log : σ → List ε) (item : ε) (x : Activity σ α) : Prop :=
  ∃ act next, x = step act next ∧ (∀ s, log (act s) = log s ++ [item]) ∧
    ∀ s, (next s).Obeys (Keeps log) fun _ => True

/-- What leaves the log alone writes nothing. -/
lemma Obeys.writes {x : Activity σ α} (hx : x.Obeys (Keeps log) P) : x.Writes log [] := by
  induction x with
  | done a => rfl
  | step act next ih =>
    intro s
    exact ⟨[], [], rfl, by rw [hx.1 s, List.append_nil], ih s (hx.2 s)⟩
  | wait ms next ih => exact ih hx

lemma Announces.writes {item : ε} {x : Activity σ α} (hx : Announces log item x) :
    x.Writes log [item] := by
  obtain ⟨act, next, rfl, announced, quiet⟩ := hx
  exact fun s => ⟨[item], [], rfl, announced s, (quiet s).writes⟩

/-- What leaves the log alone may come before what is written. -/
lemma Obeys.writes_bind {x : Activity σ α} {f : α → Activity σ β} (hx : x.Obeys (Keeps log) P)
    (hf : ∀ a, (f a).Writes log items) : (x.bind f).Writes log items := by
  induction x with
  | done a => exact hf a
  | step act next ih =>
    intro s
    have kept : log (act s) = log s ++ [] := by rw [List.append_nil, hx.1 s]
    exact ⟨[], items, rfl, kept, ih s (hx.2 s)⟩
  | wait ms next ih => exact ih hx

lemma Writes.map {x : Activity σ α} (hx : x.Writes log items) (f : α → β) :
    (x.map f).Writes log items := by
  induction x generalizing items with
  | done a => exact hx
  | step act next ih =>
    intro s
    obtain ⟨front, rest, rfl, written, hr⟩ := hx s
    exact ⟨front, rest, rfl, written, ih s hr⟩
  | wait ms next ih => exact ih hx

lemma writes_during {resume : Activity σ β → Activity σ (α × β)}
    (h : ∀ (y : Activity σ β) items, y.Writes log items → (resume y).Writes log items)
    {y : Activity σ β} (hy : y.Writes log items) (ms : Nat) :
    (during resume ms y).Writes log items := by
  induction y generalizing items ms with
  | done b => exact h (done b) items hy
  | step act next ih =>
    intro s
    obtain ⟨front, rest, rfl, written, hr⟩ := hy s
    exact ⟨front, rest, rfl, written, ih s hr ms⟩
  | wait n next ih =>
    rw [during]
    split
    · exact h _ items hy
    · split
      · exact ih hy _
      · exact h _ items hy

/-- Beside an activity that leaves the log alone, another writes what it does by itself. -/
lemma Obeys.writes_beside {x : Activity σ α} {y : Activity σ β} (hx : x.Obeys (Keeps log) P)
    (hy : y.Writes log items) : (x.beside y).Writes log items := by
  induction x generalizing y items with
  | done a => exact hy.map fun b => (a, b)
  | step act next ih =>
    intro s
    have kept : log (act s) = log s ++ [] := by rw [List.append_nil, hx.1 s]
    exact ⟨[], items, rfl, kept, ih s (hx.2 s) hy⟩
  | wait ms next ih => exact writes_during (fun z items hz => ih hx hz) hy ms

variable {item : ι → ε}

/-- Side by side, activities announce themselves in order. -/
lemma writes_together {is : List ι} (h : ∀ i ∈ is, Announces log (item i) (f i)) :
    (together (is.map f)).Writes log (is.map item) := by
  induction is with
  | nil => rfl
  | cons i is ih =>
    obtain ⟨act, next, hf, announced, quiet⟩ := h i List.mem_cons_self
    have others := ih fun j hj => h j (List.mem_cons_of_mem i hj)
    have both : ((step act next).beside (together (is.map f))).Writes log
        (item i :: is.map item) :=
      fun s => ⟨[item i], _, rfl, announced s, (quiet s).writes_beside others⟩
    rw [List.map_cons, hf, together]
    exact both.map _

/-- One after the other, activities announce themselves in order. -/
lemma writes_inOrder {is : List ι} (h : ∀ i ∈ is, Announces log (item i) (f i)) :
    (inOrder (is.map f)).Writes log (is.map item) := by
  induction is with
  | nil => rfl
  | cons i is ih =>
    obtain ⟨act, next, hf, announced, quiet⟩ := h i List.mem_cons_self
    have others := ih fun j hj => h j (List.mem_cons_of_mem i hj)
    rw [List.map_cons, hf, inOrder]
    exact fun s =>
      ⟨[item i], _, rfl, announced s, (quiet s).writes_bind fun a => others.map _⟩

/-- An activity that was not broken off has written all that it writes. -/
lemma Writes.run_unlessWaiting {x : Activity σ α} (hx : x.Writes log items) (stop : σ → Bool)
    {s t : σ} {a : α} (h : (x.unlessWaiting stop).run s = (t, some a)) :
    log t = log s ++ items := by
  induction x generalizing items s with
  | done a' =>
    obtain ⟨rfl, -⟩ := Prod.mk.inj h
    obtain rfl : items = [] := hx
    exact (List.append_nil _).symm
  | step act next ih =>
    obtain ⟨front, rest, rfl, written, hr⟩ := hx s
    rw [ih s hr h, written, List.append_assoc]
  | wait ms next ih =>
    rw [unlessWaiting, inspect, run] at h
    split at h
    · cases congrArg Prod.snd h
    · exact ih hx h

lemma Writes.run_guarded {x : Activity σ α} (hx : x.Writes log items) (stop : σ → Bool) {s t : σ}
    {a : α} (h : (x.guarded stop).run s = (t, some a)) : log t = log s ++ items := by
  rw [guarded, inspect, run] at h
  split at h
  · cases congrArg Prod.snd h
  · exact hx.run_unlessWaiting stop h

end Colloquy.Activity
