import Mathlib.Data.List.Forall2

/-!
# Computations that succeed

A computation that may fail has a result exactly when its steps have.
-/

namespace Dalvik

/-- Each item of the first of two matched lists has one in the second. -/
theorem exists_of_forall₂ {α β : Type} {related : α → β → Prop} {list : List α} {others : List β}
    (matched : List.Forall₂ related list others) {item : α} (member : item ∈ list) :
    ∃ other ∈ others, related item other := by
  induction matched with
  | nil => cases member
  | cons first _ ih =>
      rcases List.mem_cons.mp member with rfl | inRest
      · exact ⟨_, List.mem_cons_self, first⟩
      · obtain ⟨other, inOthers, holds⟩ := ih inRest
        exact ⟨other, List.mem_cons_of_mem _ inOthers, holds⟩

/-- Matched lists are matched at each position. -/
theorem getElem?_of_forall₂ {α β : Type} {related : α → β → Prop} {list : List α} {others : List β}
    (matched : List.Forall₂ related list others) {position : Nat} {item : α}
    (found : list[position]? = some item) :
    ∃ other, others[position]? = some other ∧ related item other := by
  induction matched generalizing position with
  | nil => cases found
  | cons first _ ih =>
      cases position with
      | zero => exact ⟨_, rfl, Option.some.inj found ▸ first⟩
      | succ position => exact ih found

/-- Matched lists are matched at the end. -/
theorem getLast?_of_forall₂ {α β : Type} {related : α → β → Prop} {list : List α} {others : List β}
    (matched : List.Forall₂ related list others) {item : α} (last : list.getLast? = some item) :
    ∃ other, others.getLast? = some other ∧ related item other := by
  rw [List.getLast?_eq_getElem?] at last
  obtain ⟨other, found, holds⟩ := getElem?_of_forall₂ matched last
  exact ⟨other, by rwa [List.getLast?_eq_getElem?, ← matched.length_eq], holds⟩

/-- Matched lists have the same images where matched items have. -/
theorem map_eq_of_forall₂ {α β γ : Type} {related : α → β → Prop} {image : α → γ} {image' : β → γ}
    {list : List α} {others : List β} (matched : List.Forall₂ related list others)
    (same : ∀ item other, related item other → image item = image' other) :
    list.map image = others.map image' := by
  induction matched with
  | nil => rfl
  | cons first _ ih => rw [List.map_cons, List.map_cons, same _ _ first, ih]

/-- A list of matches of matches. -/
theorem forall₂_trans {α β γ : Type} {one : α → β → Prop} {two : β → γ → Prop} {first : List α}
    {second : List β} {third : List γ} (left : List.Forall₂ one first second)
    (right : List.Forall₂ two second third) :
    List.Forall₂ (fun a c => ∃ b, one a b ∧ two b c) first third := by
  induction left generalizing third with
  | nil =>
      cases right
      exact .nil
  | cons head _ ih =>
      cases right with
      | cons head' rest' => exact .cons ⟨_, head, head'⟩ (ih rest')

theorem bind_eq_ok {ε α β : Type} {first : Except ε α} {next : α → Except ε β} {result : β} :
    first >>= next = .ok result ↔ ∃ value, first = .ok value ∧ next value = .ok result := by
  cases first with
  | error error => simp [bind, Except.bind]
  | ok value => simp [bind, Except.bind]

theorem bind_eq_error {ε α β : Type} {first : Except ε α} {next : α → Except ε β} {error : ε} :
    first >>= next = .error error ↔
      first = .error error ∨ ∃ value, first = .ok value ∧ next value = .error error := by
  cases first with
  | error other => simp [bind, Except.bind]
  | ok value => simp [bind, Except.bind]

theorem pure_eq_ok {ε α : Type} {value result : α} :
    (pure value : Except ε α) = .ok result ↔ value = result := by
  simp [pure, Except.pure]

theorem map_eq_ok {ε α β : Type} {act : α → β} {outcome : Except ε α} {result : β} :
    outcome.map act = .ok result ↔ ∃ value, outcome = .ok value ∧ act value = result := by
  cases outcome with
  | error error => simp [Except.map]
  | ok value => simp [Except.map]

theorem optionMapM_eq_ok {ε α β : Type} {act : α → Except ε β} {option : Option α}
    {result : Option β} :
    option.mapM act = .ok result ↔
      match option with
      | none => result = none
      | some item => ∃ value, act item = .ok value ∧ result = some value := by
  cases option with
  | none => exact ⟨fun same => (Except.ok.inj same).symm, fun same => congrArg _ same.symm⟩
  | some item =>
      rw [show (some item).mapM act = act item >>= fun value => pure (some value) from rfl]
      simp only [bind_eq_ok, pure_eq_ok]
      exact exists_congr fun value => and_congr_right fun _ => eq_comm

/-- A result that passes a test exists. -/
theorem exists_ok_of_decide {ε α : Type} {outcome : Except ε α} {property : α → Prop}
    [DecidablePred property]
    (known : outcome.toOption.map (fun value => decide (property value)) = some true) :
    ∃ value, outcome = .ok value ∧ property value := by
  cases outcome with
  | error error => cases known
  | ok value => exact ⟨value, rfl, of_decide_eq_true (Option.some.inj known)⟩

theorem mapM_eq_ok {ε α β : Type} {act : α → Except ε β} {list : List α} {results : List β} :
    list.mapM act = .ok results ↔
      List.Forall₂ (fun item result => act item = .ok result) list results := by
  induction list generalizing results with
  | nil => simp [pure, Except.pure, eq_comm]
  | cons item rest ih =>
      rw [List.mapM_cons, bind_eq_ok]
      simp only [bind_eq_ok, ih, List.forall₂_cons_left_iff, pure_eq_ok]
      constructor
      · rintro ⟨value, first, values, others, rfl⟩
        exact ⟨value, values, first, others, rfl⟩
      · rintro ⟨value, values, first, others, rfl⟩
        exact ⟨value, first, values, others, rfl⟩

/-- Two successful traversals of a list whose results for each item are related. -/
theorem forall₂_of_mapM_eq_ok {ε α β γ : Type} {act : α → Except ε β} {act' : α → Except ε γ}
    {related : β → γ → Prop} {list : List α} {results : List β} {others : List γ}
    (success : list.mapM act = .ok results) (success' : list.mapM act' = .ok others)
    (each : ∀ item result other, act item = .ok result → act' item = .ok other →
      related result other) : List.Forall₂ related results others := by
  refine (forall₂_trans (mapM_eq_ok.mp success).flip (mapM_eq_ok.mp success')).imp ?_
  rintro result other ⟨item, done, done'⟩
  exact each item result other done done'

/-- Each result of a successful traversal comes from an item, and each item has one. -/
theorem mem_of_mapM_eq_ok {ε α β : Type} {act : α → Except ε β} {list : List α} {results : List β}
    (success : list.mapM act = .ok results) (result : β) :
    result ∈ results ↔ ∃ item ∈ list, act item = .ok result := by
  have matched := mapM_eq_ok.mp success
  constructor
  · exact fun member => exists_of_forall₂ matched.flip member
  · rintro ⟨item, member, done⟩
    obtain ⟨other, inResults, same⟩ := exists_of_forall₂ matched member
    rwa [Except.ok.inj (done.symm.trans same)]

/-- Each item of a successful traversal has a result. -/
theorem exists_of_mapM_eq_ok {ε α β : Type} {act : α → Except ε β} {list : List α}
    {results : List β} (success : list.mapM act = .ok results) {item : α} (member : item ∈ list) :
    ∃ result ∈ results, act item = .ok result :=
  exists_of_forall₂ (mapM_eq_ok.mp success) member

theorem exists_bind_eq_ok {ε α β : Type} {first : Except ε α} {next : α → Except ε β} :
    (∃ result, first >>= next = .ok result) ↔
      ∃ value, first = .ok value ∧ ∃ result, next value = .ok result := by
  simp only [bind_eq_ok]
  exact ⟨fun ⟨result, value, done, rest⟩ => ⟨value, done, result, rest⟩,
    fun ⟨value, done, result, rest⟩ => ⟨result, value, done, rest⟩⟩

theorem exists_pure_eq_ok {ε α : Type} {value : α} :
    ∃ result, (pure value : Except ε α) = .ok result :=
  ⟨value, rfl⟩

/-- A traversal succeeds if it does on every item. -/
theorem exists_mapM_eq_ok {ε α β : Type} {act : α → Except ε β} {list : List α}
    (each : ∀ item ∈ list, ∃ result, act item = .ok result) :
    ∃ results, list.mapM act = .ok results := by
  induction list with
  | nil => exact ⟨[], rfl⟩
  | cons item rest ih =>
      obtain ⟨⟨result, done⟩, others⟩ := List.forall_mem_cons.mp each
      obtain ⟨results, more⟩ := ih others
      exact ⟨result :: results, mapM_eq_ok.mpr (.cons done (mapM_eq_ok.mp more))⟩

/-- A fold succeeds if it does on every item, whatever came before. -/
theorem exists_foldlM_eq_ok {ε α β : Type} {act : β → α → Except ε β} {list : List α}
    (each : ∀ state, ∀ item ∈ list, ∃ after, act state item = .ok after) (state : β) :
    ∃ after, list.foldlM act state = .ok after := by
  induction list generalizing state with
  | nil => exact ⟨state, rfl⟩
  | cons item rest ih =>
      obtain ⟨middle, done⟩ := each state item List.mem_cons_self
      obtain ⟨after, more⟩ :=
        ih (fun state item inRest => each state item (List.mem_cons_of_mem _ inRest)) middle
      exact ⟨after, bind_eq_ok.mpr ⟨middle, done, more⟩⟩

/-- What each step of a fold keeps holds of its result. -/
theorem foldlM_induction {ε α β : Type} {act : β → α → Except ε β} {property : β → Prop}
    {list : List α} {state result : β}
    (keeps : ∀ item ∈ list, ∀ before after, act before item = .ok after →
      property before → property after)
    (success : list.foldlM act state = .ok result) (start : property state) : property result := by
  induction list generalizing state with
  | nil =>
      obtain rfl := pure_eq_ok.mp success
      exact start
  | cons item rest ih =>
      rw [List.foldlM_cons, bind_eq_ok] at success
      obtain ⟨middle, first, others⟩ := success
      exact ih (fun item member => keeps item (List.mem_cons_of_mem _ member)) others
        (keeps item List.mem_cons_self state middle first start)

/-- A fold that succeeds did on every item. -/
theorem exists_of_foldlM_eq_ok {ε α β : Type} {act : β → α → Except ε β} {list : List α}
    {state after : β} (success : list.foldlM act state = .ok after) {item : α} (member : item ∈ list) :
    ∃ before next, act before item = .ok next := by
  induction list generalizing state with
  | nil => cases member
  | cons first rest ih =>
      obtain ⟨middle, done, more⟩ := bind_eq_ok.mp success
      rcases List.mem_cons.mp member with rfl | inRest
      · exact ⟨state, middle, done⟩
      · exact ih more inRest

end Dalvik
