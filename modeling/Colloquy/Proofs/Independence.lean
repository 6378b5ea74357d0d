import Colloquy.Proofs.Activity

/-!
# Results that do not depend on the order

Activities that share a state can get in each other's way, and then it matters for their results
whether they run side by side or one after the other.  Here is a condition under which it does not.

A started activity runs on until it waits or is done, and nothing comes between.  It opens when its
result is fixed by then: whatever is done to the state within a certain relation while it waits, it
comes to the same (`Opens`).  The state at the start may count, so activities that look alike can
come to different results, each to the one for its place in the row.

In a row of activities each has to open in the states in which those before it have opened
(`Fixes`).  Side by side they all open before any of them goes on, and one after the other each is
done before the next opens.  They come to the same results, in whatever order they are done
(`Fixes.run_guarded`).
-/

namespace Colloquy.Activity

variable {σ α β : Type}

/-- The activity may come to the result, if it meets the right states. -/
inductive Reaches (a : α) : Activity σ α → Prop
  | done : Reaches a (done a)
  | step {act next} (s : σ) (h : Reaches a (next s)) : Reaches a (step act next)
  | wait {ms next} (h : Reaches a next) : Reaches a (wait ms next)

/-- Started in a state, the activity is in a state of `J` when it first waits or is done.  By then
its result is fixed: it comes to `a`, and changes the state within `R` only. -/
def Opens (R : σ → σ → Prop) (J : σ → Prop) (a : α) : Activity σ α → σ → Prop
  | done b, s => J s ∧ b = a
  | step act next, s => (next s).Opens R J a (act s)
  | wait _ next, s => J s ∧ next.Obeys R (· = a)

/-- Changes within `R` keep the states in `J`, and in these nothing is broken off. -/
structure Calm (stop : σ → Bool) (R : σ → σ → Prop) (J : σ → Prop) : Prop where
  kept : ∀ s t, R s t → J s → J t
  going : ∀ s, J s → stop s = false

/-- In the states of a kind the activities open one after the other, and each comes to its
result. -/
inductive Fixes (stop : σ → Bool) (R : σ → σ → Prop) :
    (σ → Prop) → List (Activity σ α) → List α → Prop
  | nil {I} (calm : Calm stop R I) : Fixes stop R I [] []
  | cons {I J x xs a as} (calm : Calm stop R I) (opens : ∀ s, I s → x.Opens R J a s)
      (rest : Fixes stop R J xs as) : Fixes stop R I (x :: xs) (a :: as)

variable {stop : σ → Bool} {R : σ → σ → Prop} {I J K : σ → Prop} {a : α} {b : β} {s : σ}

lemma Fixes.calm {xs : List (Activity σ α)} {as : List α} (h : Fixes stop R I xs as) :
    Calm stop R I := by
  cases h with
  | nil calm => exact calm
  | cons calm opens rest => exact calm

/-- Whatever it meets, an activity comes to a result that it may come to. -/
lemma Obeys.reaches {P : α → Prop} {x : Activity σ α} (hx : x.Obeys R P) :
    x.Obeys R fun a => Reaches a x := by
  induction x with
  | done a => exact .done
  | step act next ih =>
    exact ⟨hx.1, fun s => (ih s (hx.2 s)).mono (fun _ _ h => h) fun a ha => .step s ha⟩
  | wait ms next ih => exact (ih hx).mono (fun _ _ h => h) fun a ha => .wait ha

/-! ## Opening side by side -/

lemma Opens.map {x : Activity σ α} (hx : x.Opens R J a s) (f : α → β) :
    (x.map f).Opens R J (f a) s := by
  induction x generalizing s with
  | done a' => exact ⟨hx.1, congrArg f hx.2⟩
  | step act next ih => exact ih s hx
  | wait ms next ih => exact ⟨hx.1, hx.2.map fun a' h => congrArg f h⟩

/-- The second activity opens while the first waits. -/
lemma opens_during {c : α × β} {resume : Activity σ β → Activity σ (α × β)}
    (h : ∀ y : Activity σ β, y.Obeys R (· = b) → (resume y).Obeys R (· = c))
    {y : Activity σ β} (hy : y.Opens R K b s) (ms : Nat) : (during resume ms y).Opens R K c s := by
  induction y generalizing s with
  | done b' => exact ⟨hy.1, h (done b') hy.2⟩
  | step act next ih => exact ih s hy
  | wait n next ih =>
    rw [during]
    split
    · exact ⟨hy.1, h (wait (n - ms) next) hy.2⟩
    · split
      · exact ⟨hy.1, obeys_during h hy.2 _⟩
      · exact ⟨hy.1, h next hy.2⟩

/-- Side by side, the first activity opens and then the second does. -/
lemma Opens.beside {x : Activity σ α} {y : Activity σ β} (hx : x.Opens R J a s)
    (hy : ∀ t, J t → y.Opens R K b t) : (x.beside y).Opens R K (a, b) s := by
  induction x generalizing s with
  | done a' =>
    obtain ⟨hJ, rfl⟩ := hx
    exact (hy s hJ).map _
  | step act next ih => exact ih s hx
  | wait ms next ih =>
    refine opens_during (fun z hz => ?_) (hy s hx.1) ms
    exact (hx.2.beside hz).mono (fun _ _ h => h) fun _ ⟨ha, hb⟩ => Prod.ext ha hb

/-- Side by side, the whole row opens. -/
lemma Fixes.opens_together {xs : List (Activity σ α)} {as : List α}
    (h : Fixes stop R I xs as) :
    ∃ K, Calm stop R K ∧ ∀ s, I s → (together xs).Opens R K as s := by
  induction h with
  | @nil I calm => exact ⟨I, calm, fun s hs => ⟨hs, rfl⟩⟩
  | cons calm opens rest ih =>
    obtain ⟨K, still, others⟩ := ih
    exact ⟨K, still, fun s hs => ((opens s hs).beside others).map fun both => both.1 :: both.2⟩

/-! ## Runs -/

/-- An activity whose result is fixed comes to it, and is not broken off. -/
lemma Obeys.run_fixed {x : Activity σ α} (hx : x.Obeys R (· = a)) (calm : Calm stop R J)
    (hs : J s) : ∃ t, J t ∧ (x.unlessWaiting stop).run s = (t, some a) := by
  induction x generalizing s with
  | done a' => exact ⟨s, hs, congrArg (fun a => (s, some a)) hx⟩
  | step act next ih => exact ih s (hx.2 s) (calm.kept _ _ (hx.1 s) hs)
  | wait ms next ih =>
    rw [Activity.unlessWaiting, inspect, Activity.run, calm.going s hs]
    exact ih hx hs

lemma Opens.run_unlessWaiting {x : Activity σ α} (hx : x.Opens R J a s) (calm : Calm stop R J) :
    ∃ t, J t ∧ (x.unlessWaiting stop).run s = (t, some a) := by
  induction x generalizing s with
  | done a' => exact ⟨s, hx.1, congrArg (fun a => (s, some a)) hx.2⟩
  | step act next ih => exact ih s hx
  | wait ms next ih => exact Obeys.run_fixed (x := wait ms next) hx.2 calm hx.1

/-- What follows an activity that was not broken off. -/
lemma run_unlessWaiting_bind {x : Activity σ α} {t : σ}
    (h : (x.unlessWaiting stop).run s = (t, some a)) (f : α → Activity σ β) :
    ((x.bind f).unlessWaiting stop).run s = ((f a).unlessWaiting stop).run t := by
  induction x generalizing s with
  | done a' =>
    obtain ⟨rfl, ha⟩ := Prod.mk.inj h
    rw [← Option.some.inj ha]
    rfl
  | step act next ih => exact ih s h
  | wait ms next ih =>
    rw [unlessWaiting, inspect, run] at h
    rw [bind, unlessWaiting, inspect, run]
    split at h
    · cases congrArg Prod.snd h
    · rename_i going
      rw [if_neg going]
      exact ih h

/-- One after the other, the activities come to their results. -/
lemma Fixes.run_inOrder {xs : List (Activity σ α)} {as : List α} (h : Fixes stop R I xs as)
    (hs : I s) : ∃ t, ((inOrder xs).unlessWaiting stop).run s = (t, some as) := by
  induction h generalizing s with
  | nil calm => exact ⟨s, rfl⟩
  | @cons I J x xs a as calm opens rest ih =>
    obtain ⟨t, ht, first⟩ := (opens s hs).run_unlessWaiting rest.calm
    obtain ⟨u, others⟩ := ih ht
    refine ⟨u, ?_⟩
    rw [inOrder, run_unlessWaiting_bind first, map, run_unlessWaiting_bind others]
    rfl

lemma run_guarded_of_going {x : Activity σ α} (going : stop s = false) :
    (x.guarded stop).run s = (x.unlessWaiting stop).run s := by
  rw [guarded, inspect, run, going]
  rfl

/-- **Activities whose results are fixed come to them**, side by side and one after the other. -/
theorem Fixes.run_guarded {xs : List (Activity σ α)} {as : List α} (h : Fixes stop R I xs as)
    (hs : I s) :
    (((together xs).guarded stop).run s).2 = some as ∧
      (((inOrder xs).guarded stop).run s).2 = some as := by
  have going : stop s = false := h.calm.going s hs
  obtain ⟨K, still, opens⟩ := h.opens_together
  obtain ⟨t, -, side⟩ := (opens s hs).run_unlessWaiting still
  obtain ⟨u, order⟩ := h.run_inOrder hs
  rw [run_guarded_of_going going, run_guarded_of_going going, side, order]
  exact ⟨rfl, rfl⟩

/-! ## Activities that do not look at the state -/

lemma Obeys.opens {x : Activity σ α} (hx : x.Obeys R (· = a)) (calm : Calm stop R J) (hs : J s) :
    x.Opens R J a s := by
  induction x generalizing s with
  | done a' => exact ⟨hs, hx⟩
  | step act next ih => exact ih s (hx.2 s) (calm.kept _ _ (hx.1 s) hs)
  | wait ms next ih => exact ⟨hs, hx⟩

/-- Activities that come to their results whatever they meet. -/
lemma fixes_of_obeys {xs : List (Activity σ α)} {as : List α} (calm : Calm stop R I)
    (h : List.Forall₂ (fun x a => x.Obeys R (· = a)) xs as) : Fixes stop R I xs as := by
  induction h with
  | nil => exact .nil calm
  | cons hx rest ih => exact .cons calm (fun s hs => hx.opens calm hs) ih

end Colloquy.Activity
