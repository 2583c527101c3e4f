import TileArchive.Reader.Error

/-!
# `TileArchive.Proofs.Trail`: lists that an error may cut off

A scan finds items one after another until it is through or fails. A `Trail` is what it finds:
the items, and the error where it failed. Trails are put together like lists, except that
nothing follows an error.

* `Trail.append` goes on with another trail, and `Trail.bind` replaces every item by a trail.
* `bind_append`: replacing items goes through piece by piece.
* `feed_eq_of_related`: consumers that stay in step come to the same result.

## Trails and consumers

Scans are programs that hand items to a consumer, and the consumer decides after each item whether
it goes on. `Trail.feed` hands a consumer what is on a trail, and tells it the error at the end if
there is one. A theorem that a program gives its consumer a certain trail turns questions about the
program into questions about a list.

Two consumers on two trails are compared by a relation between their states, kept by every item,
and a relation between their results (`feed_related`). The induction is done there once. It carries
relocation, counting and coalescing, each with a relation of its own.
-/

set_option autoImplicit false

namespace TileArchive

/-- Items, and the error that cut them off. It is what a walk through an archive amounts to
when the bytes are at hand: the reads are gone, and what they were for is left. -/
structure Trail (α : Type) where
  items : List α
  error : Option ReadError
deriving DecidableEq

namespace Trail

variable {α β γ : Type}

/-- The trail without items. -/
def nil : Trail α := ⟨[], none⟩

/-- An error before any item. -/
def broken (error : ReadError) : Trail α := ⟨[], some error⟩

/-- One item before all others. -/
def cons (item : α) (t : Trail α) : Trail α := ⟨item :: t.items, t.error⟩

/-- Goes on with another trail where no error cuts the first off. With an error at its end a
trail takes in nothing more. -/
def append (t u : Trail α) : Trail α :=
  match t.error with
  | none => ⟨t.items ++ u.items, u.error⟩
  | some _ => t

instance : Append (Trail α) := ⟨append⟩

/-- Changes every item. -/
def map (f : α → β) (t : Trail α) : Trail β := ⟨t.items.map f, t.error⟩

/-- Replaces every item by a trail. The first of these trails that ends with an error ends
the whole. -/
def bind (t : Trail α) (f : α → Trail β) : Trail β :=
  t.items.foldr (fun item rest => f item ++ rest) ⟨[], t.error⟩

/-- A trail without an error goes on with what comes after it. -/
theorem append_eq_of_error_none {t : Trail α} (whole : t.error = none) (u : Trail α) :
    t ++ u = ⟨t.items ++ u.items, u.error⟩ := by
  show append t u = _
  rw [append, whole]

/-- Nothing follows an error. -/
theorem append_eq_left {t : Trail α} (cut : t.error.isSome) (u : Trail α) : t ++ u = t := by
  obtain ⟨e, error_eq⟩ := Option.isSome_iff_exists.mp cut
  show append t u = _
  rw [append, error_eq]

/-- An empty trail behind another adds nothing. -/
@[simp]
theorem append_nil (t : Trail α) : t ++ nil = t := by
  match t with
  | ⟨items, none⟩ => exact (append_eq_of_error_none rfl _).trans (by rw [nil, List.append_nil])
  | ⟨items, some e⟩ => rfl

/-- The first item stays first when a trail goes on. -/
@[simp]
theorem cons_append (item : α) (t u : Trail α) : cons item t ++ u = cons item (t ++ u) := by
  match t with
  | ⟨items, none⟩ => rfl
  | ⟨items, some e⟩ => rfl

/-- Three trails in a row may be put together in either order. -/
theorem append_assoc (t u v : Trail α) : t ++ u ++ v = t ++ (u ++ v) := by
  match t, u with
  | ⟨_, some _⟩, _ => rfl
  | ⟨_, none⟩, ⟨_, some _⟩ => rfl
  | ⟨xs, none⟩, ⟨ys, none⟩ =>
    show (⟨(xs ++ ys) ++ v.items, v.error⟩ : Trail α) = ⟨xs ++ (ys ++ v.items), v.error⟩
    rw [List.append_assoc]

/-- The first item is replaced first. -/
@[simp]
theorem cons_bind (item : α) (t : Trail α) (f : α → Trail β) :
    (cons item t).bind f = f item ++ t.bind f := rfl

/-- The same with the items written as a list. -/
theorem bind_mk_cons (item : α) (items : List α) (error : Option ReadError) (f : α → Trail β) :
    bind ⟨item :: items, error⟩ f = f item ++ bind ⟨items, error⟩ f := rfl

/-- Items that are replaced do not mend an error behind them. An error that comes earlier
may take its place. -/
theorem error_bind_isSome {t : Trail α} (cut : t.error.isSome) (f : α → Trail β) :
    (t.bind f).error.isSome := by
  obtain ⟨items, error⟩ := t
  induction items with
  | nil => exact cut
  | cons item items ih =>
      rw [bind_mk_cons]
      -- The error is either the one of the first replacement or the one behind all items.
      cases error_eq : (f item).error with
      | none =>
          rw [append_eq_of_error_none error_eq]
          exact ih cut
      | some e =>
          have cut' : (f item).error.isSome := by rw [error_eq]; rfl
          rwa [append_eq_left cut']

/-- An item that is replaced by a failing trail makes the whole fail. What comes behind the
item is lost. -/
theorem error_bind_isSome_of_mem {t : Trail α} {item : α} (member : item ∈ t.items)
    {f : α → Trail β} (cut : (f item).error.isSome) : (t.bind f).error.isSome := by
  obtain ⟨items, error⟩ := t
  induction items with
  | nil => cases member
  | cons first items ih =>
      rw [bind_mk_cons]
      cases error_eq : (f first).error with
      | none =>
          rw [append_eq_of_error_none error_eq]
          rcases List.mem_cons.mp member with rfl | later
          · -- The first item does not fail here, so it is not the one that does.
            rw [error_eq] at cut
            cases cut
          · exact ih later
      | some e =>
          have cut' : (f first).error.isSome := by rw [error_eq]; rfl
          rwa [append_eq_left cut']

/-- Replacing the items of two pieces is replacing those of one after those of the other. -/
theorem bind_append (t u : Trail α) (f : α → Trail β) : (t ++ u).bind f = t.bind f ++ u.bind f := by
  match t with
  | ⟨items, some e⟩ =>
    -- The second piece is not reached, on either side.
    have cut : ((⟨items, some e⟩ : Trail α).bind f).error.isSome := error_bind_isSome rfl f
    rw [append_eq_left cut]
    rfl
  | ⟨items, none⟩ =>
    induction items with
    | nil => rfl
    | cons item items ih =>
        have split : (⟨item :: items, none⟩ : Trail α) = cons item ⟨items, none⟩ := rfl
        rw [split, cons_append, cons_bind, cons_bind, ih, append_assoc]

/-! ### Trails that no error cuts off -/

/-- Two trails in a row have no error if neither has, and then all items are there. -/
theorem append_whole {t u : Trail α} (whole : (t ++ u).error = none) :
    t.error = none ∧ u.error = none ∧ (t ++ u).items = t.items ++ u.items := by
  match t with
  | ⟨items, none⟩ => exact ⟨rfl, whole, rfl⟩
  | ⟨items, some e⟩ => cases whole

/-- Where nothing fails, every item has been replaced, each by a trail that does not fail.
So a whole result says something about each item on the way. -/
theorem bind_whole {t : Trail α} {f : α → Trail β} (whole : (t.bind f).error = none) :
    t.error = none ∧ (∀ item ∈ t.items, (f item).error = none) ∧
      (t.bind f).items = t.items.flatMap fun item => (f item).items := by
  obtain ⟨items, error⟩ := t
  induction items with
  | nil => exact ⟨whole, nofun, rfl⟩
  | cons item items ih =>
      rw [bind_mk_cons] at whole ⊢
      obtain ⟨first, later, items_eq⟩ := append_whole whole
      obtain ⟨error_eq, all, rest_eq⟩ := ih later
      refine ⟨error_eq, ?_, ?_⟩
      · intro item' member
        cases member with
        | head => exact first
        | tail _ member => exact all item' member
      · rw [items_eq, rest_eq]
        rfl

/-- Where neither a trail nor what replaces its items fails, nothing fails. -/
theorem bind_error_eq_none {t : Trail α} {f : α → Trail β} (whole : t.error = none)
    (each : ∀ item ∈ t.items, (f item).error = none) : (t.bind f).error = none := by
  obtain ⟨items, error⟩ := t
  induction items with
  | nil => exact whole
  | cons item items ih =>
      have first : (f item).error = none := each item List.mem_cons_self
      rw [bind_mk_cons, append_eq_of_error_none first]
      exact ih whole fun later member => each later (List.mem_cons_of_mem item member)

/-! ### Consumers -/

/-- Hands items to a consumer that goes on with a new state or stops with a result. -/
def feedItems {σ : Type} (onItem : σ → α → σ ⊕ β) (atEnd : σ → β) : List α → σ → β
  | [], state => atEnd state
  | item :: rest, state =>
    match onItem state item with
    | .inl state => feedItems onItem atEnd rest state
    | .inr result => result

/-- Hands all items to a consumer. `atEnd` makes the result where it did not stop, and is
told of the error, if the trail has one. -/
def feed {σ : Type} (onItem : σ → α → σ ⊕ β) (atEnd : σ → Option ReadError → β) (t : Trail α)
    (state : σ) : β :=
  feedItems onItem (atEnd · t.error) t.items state

/-- A consumer is handed the first item and goes on with the others if it wants to. -/
@[simp]
theorem feed_cons {σ : Type} (onItem : σ → α → σ ⊕ β) (atEnd : σ → Option ReadError → β)
    (item : α) (t : Trail α) (state : σ) :
    (cons item t).feed onItem atEnd state
      = match onItem state item with
        | .inl state => t.feed onItem atEnd state
        | .inr result => result := rfl

/-- Consumers whose states stay related through every item, and whose results are related where
they stop and where they end, give related results. The induction is on the items. -/
theorem feed_related {σ σ' : Type} {R : σ → σ' → Prop} {S : β → γ → Prop}
    {onItem : σ → α → σ ⊕ β} {onItem' : σ' → α → σ' ⊕ γ} {atEnd : σ → Option ReadError → β}
    {atEnd' : σ' → Option ReadError → γ} {t : Trail α}
    (steps : ∀ item ∈ t.items, ∀ state state', R state state' →
      Sum.LiftRel R S (onItem state item) (onItem' state' item))
    (ends : ∀ state state', R state state' → S (atEnd state t.error) (atEnd' state' t.error))
    {state : σ} {state' : σ'} (related : R state state') :
    S (t.feed onItem atEnd state) (t.feed onItem' atEnd' state') := by
  obtain ⟨items, error⟩ := t
  induction items generalizing state state' with
  | nil => exact ends state state' related
  | cons item items ih =>
      have step := steps item List.mem_cons_self state state' related
      have split : (⟨item :: items, error⟩ : Trail α) = cons item ⟨items, error⟩ := rfl
      rw [split, feed_cons, feed_cons]
      generalize onItem state item = next, onItem' state' item = next' at step
      cases step with
      | inl related =>
          exact ih related (fun later mem => steps later (List.mem_cons_of_mem item mem)) ends
      | inr results => exact results

/-- Consumers whose states stay related through every item, and that stop alike and end alike,
give the same result. -/
theorem feed_eq_of_related {σ σ' : Type} {R : σ → σ' → Prop} {onItem : σ → α → σ ⊕ β}
    {onItem' : σ' → α → σ' ⊕ β} {atEnd : σ → Option ReadError → β}
    {atEnd' : σ' → Option ReadError → β} {t : Trail α}
    (steps : ∀ item ∈ t.items, ∀ state state', R state state' →
      Sum.LiftRel R Eq (onItem state item) (onItem' state' item))
    (ends : ∀ state state', R state state' → atEnd state t.error = atEnd' state' t.error)
    {state : σ} {state' : σ'} (related : R state state') :
    t.feed onItem atEnd state = t.feed onItem' atEnd' state' :=
  feed_related steps ends related

/-- Consumers that do the same with every item give the same result. -/
theorem feed_congr {σ : Type} {onItem onItem' : σ → α → σ ⊕ β}
    {atEnd : σ → Option ReadError → β} {t : Trail α}
    (same : ∀ item ∈ t.items, ∀ state, onItem state item = onItem' state item) (state : σ) :
    t.feed onItem atEnd state = t.feed onItem' atEnd state := by
  refine feed_eq_of_related (R := Eq) ?_ (fun _ _ => congrArg (atEnd · t.error)) rfl
  rintro item member state _ rfl
  have step := same item member state
  generalize onItem state item = next, onItem' state item = next' at step ⊢
  subst step
  cases next with
  | inl state => exact .inl rfl
  | inr result => exact .inr rfl

end Trail

end TileArchive
