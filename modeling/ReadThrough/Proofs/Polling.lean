import ReadThrough.Polling
/-!
# Proofs: polling more than once

Whatever links the states before and after one poll, together with what the poll tells, and can be
chained, links the states before and after `drain` and `join` (`drain_rel`, `join_rel`). So does
what is linked only while an invariant holds that each poll keeps (`drain_under`, `join_under`).
Two states that are alike answer alike (`drain_alike`, `join_alike`), and if they may part, until
they do (`drain_unless`, `join_unless`). All the passes of a `join` together are one pass, over the
tasks that it asks (`join_eq_pass`).
-/

namespace ReadThrough

variable {S I : Type}

/-- The item that an answer gives. -/
def TaskAnswer.item? {I : Type} : TaskAnswer I → Option I
  | .answer (.item item) => some item
  | _ => none

/-- What a poll of a named task contributes to the answers of a pass. -/
def told (id : String) (answer : TaskAnswer I) : List (String × TaskAnswer I) :=
  if answer.tells then [(id, answer)] else []

/-! ## Items -/

section Items

variable {answer : TaskAnswer I}

/-- An answer gives an item only if it is that item. -/
theorem TaskAnswer.eq_of_item? {item : I} (h : answer.item? = some item) :
    answer = .answer (.item item) := by
  unfold item? at h
  split at h
  · cases h
    rfl
  · cases h

theorem TaskAnswer.filterMap_item? (answer : TaskAnswer I) :
    [answer].filterMap item? = answer.item?.toList := by
  rw [List.filterMap_cons]
  cases answer.item? with
  | none => rfl
  | some item => rfl

/-- An answer that tells nothing gives no item. -/
theorem filterMap_item?_told (id : String) (answer : TaskAnswer I) :
    (told id answer).filterMap (fun p => p.2.item?) = answer.item?.toList := by
  cases answer with
  | answer given =>
    cases given with
    | pending | item | done | panicked => rfl
  | finished => rfl
  | unknown => rfl

end Items

/-! ## Relations between states -/

section Drain

variable {poll : S → TaskAnswer I × S} {R : S → List (TaskAnswer I) → S → Prop}

/-- Where a drain leads, by its first poll. -/
theorem drain_succ (poll : S → TaskAnswer I × S) (polls : Nat) (s : S) :
    (drain poll (polls + 1) s).2 =
      if (poll s).1.mayContinue then (drain poll polls (poll s).2).2 else (poll s).2 := by
  simp only [drain]
  split <;> rfl

/-- What relates the states before and after each poll, by its answer, relates those before and
after all polls of a task that is drained. -/
theorem drain_rel (hnil : ∀ s, R s [] s)
    (happend : ∀ {s s' s'' as bs}, R s as s' → R s' bs s'' → R s (as ++ bs) s'')
    (hpoll : ∀ s, R s [(poll s).1] (poll s).2) (polls : Nat) (s : S) :
    R s (drain poll polls s).1 (drain poll polls s).2 := by
  induction polls generalizing s with
  | zero => exact hnil s
  | succ polls ih =>
    have hfirst := hpoll s
    simp only [drain]
    split
    · exact happend hfirst (ih (poll s).2)
    · exact hfirst

end Drain

section Join

variable {poll : String → S → TaskAnswer I × S} {R : S → List (String × TaskAnswer I) → S → Prop}

/-- As `drain_rel`, for one pass over some tasks. -/
theorem pass_rel {ids : List String} (hnil : ∀ s, R s [] s)
    (happend : ∀ {s s' s'' as bs}, R s as s' → R s' bs s'' → R s (as ++ bs) s'')
    (hpoll : ∀ id ∈ ids, ∀ s, R s (told id (poll id s).1) (poll id s).2) (s : S) :
    R s (pass poll ids s).1 (pass poll ids s).2 := by
  induction ids generalizing s with
  | nil => exact hnil s
  | cons id ids ih =>
    have hfirst := hpoll id (List.mem_cons_self ..) s
    have hrest := ih (fun id' h => hpoll id' (List.mem_cons_of_mem _ h)) (poll id s).2
    have h := happend hfirst hrest
    simp only [pass]
    unfold told at h
    split
    · rename_i ht; rwa [if_pos ht] at h
    · rename_i ht; rwa [if_neg ht] at h

/-- As `drain_rel`, for all passes over some tasks. -/
theorem join_rel {ids : List String} (hnil : ∀ s, R s [] s)
    (happend : ∀ {s s' s'' as bs}, R s as s' → R s' bs s'' → R s (as ++ bs) s'')
    (hpoll : ∀ id ∈ ids, ∀ s, R s (told id (poll id s).1) (poll id s).2) (passes : Nat) (s : S) :
    R s (join poll passes ids s).1 (join poll passes ids s).2 := by
  induction passes generalizing s with
  | zero => exact hnil s
  | succ passes ih =>
    have hpass := pass_rel hnil happend hpoll s
    simp only [join]
    split
    · rename_i heq; rwa [heq] at hpass
    · rename_i heq
      rw [heq] at hpass
      exact happend hpass (ih _)

end Join

/-! ## Invariants -/

section Invariants

variable {K : S → Prop} {R : S → S → Prop} {s : S}

/-- What every poll keeps is kept when a task is drained. -/
theorem drain_keeps {poll : S → TaskAnswer I × S} (hpoll : ∀ s, K s → K (poll s).2) (polls : Nat)
    (h : K s) : K (drain poll polls s).2 :=
  drain_rel (R := fun s _ s' => K s → K s') (fun _ => id)
    (fun hfirst hrest hs => hrest (hfirst hs)) hpoll polls s h

/-- What every poll of a task keeps is kept when tasks are joined. -/
theorem join_keeps {poll : String → S → TaskAnswer I × S} {ids : List String}
    (hpoll : ∀ id ∈ ids, ∀ s, K s → K (poll id s).2) (passes : Nat) (h : K s) :
    K (join poll passes ids s).2 :=
  join_rel (R := fun s _ s' => K s → K s') (fun _ => id)
    (fun hfirst hrest hs => hrest (hfirst hs)) hpoll passes s h

/-- As long as an invariant holds, every poll leads on. -/
theorem drain_under {poll : S → TaskAnswer I × S} (hrefl : ∀ s, R s s)
    (htrans : ∀ {s s' s''}, R s s' → R s' s'' → R s s'')
    (hpoll : ∀ s, K s → R s (poll s).2 ∧ K (poll s).2) (polls : Nat) (h : K s) :
    R s (drain poll polls s).2 ∧ K (drain poll polls s).2 :=
  drain_rel (R := fun s _ s' => K s → R s s' ∧ K s') (fun s hs => ⟨hrefl s, hs⟩)
    (fun hfirst hrest hs =>
      ⟨htrans (hfirst hs).1 (hrest (hfirst hs).2).1, (hrest (hfirst hs).2).2⟩)
    hpoll polls s h

/-- As `join_keeps`, with a relation between the states before and after, which may need what is
kept. -/
theorem join_under {poll : String → S → TaskAnswer I × S} {ids : List String}
    (hrefl : ∀ s, R s s) (htrans : ∀ {s s' s''}, R s s' → R s' s'' → R s s'')
    (hpoll : ∀ id ∈ ids, ∀ s, K s → R s (poll id s).2 ∧ K (poll id s).2) (passes : Nat)
    (h : K s) : R s (join poll passes ids s).2 ∧ K (join poll passes ids s).2 :=
  join_rel (R := fun s _ s' => K s → R s s' ∧ K s') (fun s hs => ⟨hrefl s, hs⟩)
    (fun hfirst hrest hs =>
      ⟨htrans (hfirst hs).1 (hrest (hfirst hs).2).1, (hrest (hfirst hs).2).2⟩)
    hpoll passes s h

/-- As long as an invariant holds, the answers are as they are while it does. -/
theorem forall_mem_drain {poll : S → TaskAnswer I × S} {fine : TaskAnswer I → Prop}
    (hpoll : ∀ s, K s → fine (poll s).1 ∧ K (poll s).2) (polls : Nat) (h : K s) :
    ∀ answer ∈ (drain poll polls s).1, fine answer := by
  induction polls generalizing s with
  | zero => exact nofun
  | succ polls ih =>
    obtain ⟨hfirst, hafter⟩ := hpoll s h
    simp only [drain]
    split
    · exact List.forall_mem_cons.mpr ⟨hfirst, ih hafter⟩
    · exact List.forall_mem_singleton.mpr hfirst

end Invariants

/-! ## Polling states that are alike

If related states answer a poll alike and stay related, then they answer several polls alike. In
particular a state can be kept together with a record of what happens, which does not change the
polls: `π` forgets the record. -/

section Alike

variable {S' : Type} {R : S → S' → Prop} {π : S' → S}

/-- Two tasks whose polls answer the same are drained alike. -/
theorem drain_alike {poll : S → TaskAnswer I × S} {poll' : S' → TaskAnswer I × S'}
    (hpoll : ∀ s s', R s s' → (poll' s').1 = (poll s).1 ∧ R (poll s).2 (poll' s').2)
    (polls : Nat) {s : S} {s' : S'} (h : R s s') :
    (drain poll' polls s').1 = (drain poll polls s).1 ∧
      R (drain poll polls s).2 (drain poll' polls s').2 := by
  induction polls generalizing s s' with
  | zero => exact ⟨rfl, h⟩
  | succ polls ih =>
    obtain ⟨hanswer, hstate⟩ := hpoll s s' h
    obtain ⟨hanswers, hlast⟩ := ih hstate
    simp only [drain, hanswer]
    split
    · exact ⟨by rw [hanswers], hlast⟩
    · exact ⟨rfl, hstate⟩

/-- To keep a record beside the state changes nothing for a task that is drained. -/
theorem drain_record {poll : S → TaskAnswer I × S} {poll' : S' → TaskAnswer I × S'}
    (hanswer : ∀ s, (poll' s).1 = (poll (π s)).1) (hstate : ∀ s, π (poll' s).2 = (poll (π s)).2)
    (polls : Nat) (s : S') :
    (drain poll' polls s).1 = (drain poll polls (π s)).1 ∧
      π (drain poll' polls s).2 = (drain poll polls (π s)).2 :=
  drain_alike (R := fun s s' => π s' = s)
    (fun _ s' h => h ▸ ⟨hanswer s', hstate s'⟩) polls rfl

variable {poll : String → S → TaskAnswer I × S} {poll' : String → S' → TaskAnswer I × S'}
  {ids : List String}

/-- Passes over tasks whose polls answer the same go alike. -/
theorem pass_alike
    (hpoll : ∀ id ∈ ids, ∀ s s', R s s' →
      (poll' id s').1 = (poll id s).1 ∧ R (poll id s).2 (poll' id s').2)
    {s : S} {s' : S'} (h : R s s') :
    (pass poll' ids s').1 = (pass poll ids s).1 ∧
      R (pass poll ids s).2 (pass poll' ids s').2 := by
  induction ids generalizing s s' with
  | nil => exact ⟨rfl, h⟩
  | cons id ids ih =>
    obtain ⟨hanswer, hstate⟩ := hpoll id (List.mem_cons_self ..) s s' h
    obtain ⟨hanswers, hlast⟩ := ih (fun id' hid => hpoll id' (List.mem_cons_of_mem _ hid)) hstate
    simp only [pass, hanswer, hanswers]
    exact ⟨trivial, hlast⟩

/-- Tasks whose polls answer the same are joined alike. -/
theorem join_alike
    (hpoll : ∀ id ∈ ids, ∀ s s', R s s' →
      (poll' id s').1 = (poll id s).1 ∧ R (poll id s).2 (poll' id s').2)
    (passes : Nat) {s : S} {s' : S'} (h : R s s') :
    (join poll' passes ids s').1 = (join poll passes ids s).1 ∧
      R (join poll passes ids s).2 (join poll' passes ids s').2 := by
  induction passes generalizing s s' with
  | zero => exact ⟨rfl, h⟩
  | succ passes ih =>
    obtain ⟨hanswers, hlast⟩ := pass_alike hpoll h
    simp only [join]
    rcases hpass' : pass poll' ids s' with ⟨_ | ⟨first, more⟩, s₁'⟩ <;>
      rcases hpass : pass poll ids s with ⟨_ | ⟨first', more'⟩, s₁⟩ <;>
      rw [hpass', hpass] at hanswers hlast
    · exact ⟨rfl, hlast⟩
    · cases hanswers
    · cases hanswers
    · obtain ⟨hrest, hend⟩ := ih hlast
      simp only at hanswers hlast ⊢
      rw [hrest, hanswers]
      exact ⟨rfl, hend⟩

/-- To keep a record beside the state changes nothing for tasks that are joined. -/
theorem join_record (hanswer : ∀ id s, (poll' id s).1 = (poll id (π s)).1)
    (hstate : ∀ id s, π (poll' id s).2 = (poll id (π s)).2) (ids : List String) (passes : Nat)
    (s : S') :
    (join poll' passes ids s).1 = (join poll passes ids (π s)).1 ∧
      π (join poll' passes ids s).2 = (join poll passes ids (π s)).2 :=
  join_alike (R := fun s s' => π s' = s)
    (fun id _ _ s' h => h ▸ ⟨hanswer id s', hstate id s'⟩) passes rfl

end Alike

/-! ## Polling states that may part

Related states answer a poll alike and stay related, or they part (`D`). States that have parted do
not come together again, whichever of them is polled. -/

section Parting

variable {S' : Type} {R D : S → S' → Prop} {s : S} {s' : S'}

/-- All polls of a drain but the first are a drain. -/
theorem exists_drain_succ (poll : S → TaskAnswer I × S) (polls : Nat) (s : S) :
    ∃ more, (drain poll (polls + 1) s).2 = (drain poll more (poll s).2).2 := by
  rw [drain_succ]
  split
  · exact ⟨polls, rfl⟩
  · exact ⟨0, rfl⟩

/-- Two tasks are drained alike, unless their states are parted for good. -/
theorem drain_unless {poll : S → TaskAnswer I × S} {poll' : S' → TaskAnswer I × S'}
    (hpoll : ∀ s s', R s s' → D (poll s).2 (poll' s').2 ∨
      (poll' s').1 = (poll s).1 ∧ R (poll s).2 (poll' s').2)
    (hleft : ∀ s s', D s s' → D (poll s).2 s') (hright : ∀ s s', D s s' → D s (poll' s').2)
    (polls : Nat) (h : R s s') :
    D (drain poll polls s).2 (drain poll' polls s').2 ∨
      (drain poll' polls s').1 = (drain poll polls s).1 ∧
        R (drain poll polls s).2 (drain poll' polls s').2 := by
  induction polls generalizing s s' with
  | zero => exact .inr ⟨rfl, h⟩
  | succ polls ih =>
    rcases hpoll s s' h with hparted | ⟨hanswer, hstate⟩
    · obtain ⟨more, hdrain⟩ := exists_drain_succ poll polls s
      obtain ⟨more', hdrain'⟩ := exists_drain_succ poll' polls s'
      have hfirst := drain_keeps (K := (D · (poll' s').2)) (fun s => hleft s _) more hparted
      rw [hdrain, hdrain']
      exact .inl (drain_keeps (K := D _) (hright _) more' hfirst)
    · simp only [drain, hanswer]
      split
      · exact (ih hstate).imp id fun ⟨hanswers, hlast⟩ => ⟨by rw [hanswers], hlast⟩
      · exact .inr ⟨rfl, hstate⟩

variable {poll : String → S → TaskAnswer I × S} {poll' : String → S' → TaskAnswer I × S'}

/-- What every poll of a task keeps is kept in one pass. -/
theorem pass_keeps {K : S → Prop} {ids : List String}
    (hpoll : ∀ id ∈ ids, ∀ s, K s → K (poll id s).2) (h : K s) : K (pass poll ids s).2 :=
  pass_rel (R := fun s _ s' => K s → K s') (fun _ => id)
    (fun hfirst hrest hs => hrest (hfirst hs)) hpoll s h

/-- As `drain_unless`, for one pass over some tasks. -/
theorem pass_unless {ids : List String}
    (hpoll : ∀ id ∈ ids, ∀ s s', R s s' → D (poll id s).2 (poll' id s').2 ∨
      (poll' id s').1 = (poll id s).1 ∧ R (poll id s).2 (poll' id s').2)
    (hleft : ∀ id s s', D s s' → D (poll id s).2 s')
    (hright : ∀ id s s', D s s' → D s (poll' id s').2) (h : R s s') :
    D (pass poll ids s).2 (pass poll' ids s').2 ∨
      (pass poll' ids s').1 = (pass poll ids s).1 ∧
        R (pass poll ids s).2 (pass poll' ids s').2 := by
  induction ids generalizing s s' with
  | nil => exact .inr ⟨rfl, h⟩
  | cons first ids ih =>
    simp only [pass]
    rcases hpoll first (List.mem_cons_self ..) s s' h with hparted | ⟨hanswer, hstate⟩
    · have hfirst : D (pass poll ids (poll first s).2).2 (poll' first s').2 :=
        pass_keeps (K := (D · (poll' first s').2)) (fun id _ s => hleft id s _) hparted
      exact .inl (pass_keeps (K := D _) (fun id _ => hright id _) hfirst)
    · have hrest := ih (fun id hid => hpoll id (List.mem_cons_of_mem _ hid)) hstate
      exact hrest.imp id fun ⟨hanswers, hlast⟩ => ⟨by rw [hanswer, hanswers], hlast⟩

/-- All passes of a join but the first are a join. -/
theorem exists_join_succ (poll : String → S → TaskAnswer I × S) (passes : Nat) (ids : List String)
    (s : S) :
    ∃ more, (join poll (passes + 1) ids s).2 = (join poll more ids (pass poll ids s).2).2 := by
  simp only [join]
  split
  · rename_i hpass
    rw [hpass]
    exact ⟨0, rfl⟩
  · rename_i hpass
    rw [hpass]
    exact ⟨passes, rfl⟩

/-- As `drain_unless`, for all passes over some tasks. -/
theorem join_unless {ids : List String}
    (hpoll : ∀ id ∈ ids, ∀ s s', R s s' → D (poll id s).2 (poll' id s').2 ∨
      (poll' id s').1 = (poll id s).1 ∧ R (poll id s).2 (poll' id s').2)
    (hleft : ∀ id s s', D s s' → D (poll id s).2 s')
    (hright : ∀ id s s', D s s' → D s (poll' id s').2) (passes : Nat) (h : R s s') :
    D (join poll passes ids s).2 (join poll' passes ids s').2 ∨
      (join poll' passes ids s').1 = (join poll passes ids s).1 ∧
        R (join poll passes ids s).2 (join poll' passes ids s').2 := by
  induction passes generalizing s s' with
  | zero => exact .inr ⟨rfl, h⟩
  | succ passes ih =>
    rcases pass_unless hpoll hleft hright h with hparted | ⟨hanswers, hlast⟩
    · obtain ⟨more, hjoin⟩ := exists_join_succ poll passes ids s
      obtain ⟨more', hjoin'⟩ := exists_join_succ poll' passes ids s'
      have hfirst : D (join poll more ids (pass poll ids s).2).2 (pass poll' ids s').2 :=
        join_keeps (K := (D · (pass poll' ids s').2)) (fun id _ s => hleft id s _) more hparted
      rw [hjoin, hjoin']
      exact .inl (join_keeps (K := D _) (fun id _ => hright id _) more' hfirst)
    · simp only [join]
      rcases hpass' : pass poll' ids s' with ⟨_ | ⟨first, others⟩, s₁'⟩ <;>
        rcases hpass : pass poll ids s with ⟨_ | ⟨first', others'⟩, s₁⟩ <;>
        rw [hpass', hpass] at hanswers hlast
      · exact .inr ⟨rfl, hlast⟩
      · cases hanswers
      · cases hanswers
      · simp only at hanswers hlast ⊢
        exact (ih hlast).imp id fun ⟨hrest, hend⟩ => ⟨by rw [hrest, hanswers], hend⟩

end Parting

/-! ## All passes as one -/

section Asked

variable (poll : String → S → TaskAnswer I × S)

/-- The tasks that `join` polls, in order. -/
def asked : Nat → List String → S → List String
  | 0, _, _ => []
  | passes + 1, ids, s =>
    match pass poll ids s with
    | ([], _) => ids
    | (_, s) => ids ++ asked passes ids s

/-- A pass over more tasks is one over the first of them, and then one over the others. -/
theorem pass_append (ids ids' : List String) (s : S) :
    pass poll (ids ++ ids') s =
      ((pass poll ids s).1 ++ (pass poll ids' (pass poll ids s).2).1,
        (pass poll ids' (pass poll ids s).2).2) := by
  induction ids generalizing s with
  | nil => rfl
  | cons id ids ih =>
    simp only [List.cons_append, pass, ih]
    split <;> rfl

/-- To join tasks is to pass once over all that is polled, in order. -/
theorem join_eq_pass (passes : Nat) (ids : List String) (s : S) :
    join poll passes ids s = pass poll (asked poll passes ids s) s := by
  induction passes generalizing s with
  | zero => rfl
  | succ passes ih =>
    rcases hpass : pass poll ids s with ⟨_ | ⟨first, more⟩, s'⟩
    · simp only [join, asked, hpass]
    · simp only [join, asked, hpass, pass_append, ih]

/-- Whatever a pass collects tells something. -/
theorem tells_of_mem_pass {ids : List String} {s : S} {p : String × TaskAnswer I}
    (h : p ∈ (pass poll ids s).1) : p.2.tells = true := by
  induction ids generalizing s with
  | nil => cases h
  | cons id ids ih =>
    simp only [pass] at h
    split at h
    · rename_i htells
      rcases List.mem_cons.mp h with rfl | h
      · exact htells
      · exact ih h
    · exact ih h

end Asked

end ReadThrough
