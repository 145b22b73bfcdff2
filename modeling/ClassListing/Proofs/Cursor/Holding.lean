import Mathlib.Data.List.Basic

/-!
# What cursors hold of the ledger

A state of a cursor holds some of the editable lists in the ledger: each with its slot and its content. The
slots ascend from left to right. Reading on makes further lists at the end of the ledger, removing
takes one element out of one list, and neither concerns what else is held.
-/

namespace ClassListing.CursorExpression

set_option autoImplicit false

variable {α : Type}

abbrev Holdings (α : Type) := List (Nat × List α)

namespace Holdings

def slots (H : Holdings α) : List Nat := H.map Prod.fst

@[simp] theorem slots_append (H K : Holdings α) : slots (H ++ K) = slots H ++ slots K :=
  List.map_append

theorem mem_slots {H : Holdings α} {e : Nat × List α} (he : e ∈ H) : e.1 ∈ slots H :=
  List.mem_map_of_mem he

structure Fits (H : Holdings α) (lists : List (List α)) : Prop where
  ascending : (slots H).Pairwise (· < ·)
  lookup : ∀ e ∈ H, lists[e.1]? = some e.2

theorem Fits.slot_lt {H : Holdings α} {lists : List (List α)} (h : Fits H lists) {j : Nat}
    (hj : j ∈ slots H) : j < lists.length := by
  obtain ⟨e, he, rfl⟩ := List.mem_map.mp hj
  exact (List.getElem?_eq_some_iff.mp (h.lookup e he)).1

theorem Fits.sublist {H K : Holdings α} {lists : List (List α)} (h : Fits K lists)
    (hs : H.Sublist K) : Fits H lists :=
  ⟨h.ascending.sublist (hs.map _), fun e he => h.lookup e (hs.subset he)⟩

/-! ## Reading on -/

/-- Holdings `H` with lists `unmade` still to be made have become `H'` with `unmade'`. The ledger has
got the lists made in between, and new slots are theirs. -/
structure Grows (H : Holdings α) (unmade lists : List (List α)) (H' : Holdings α)
    (unmade' lists' : List (List α)) : Prop where
  made : ∃ made, lists' = lists ++ made ∧ unmade = made ++ unmade' ∧
    (slots H').Sublist (slots H ++ List.range' lists.length made.length)
  lookup : ∀ e ∈ H', lists'[e.1]? = some e.2

variable {H H' H'' K : Holdings α} {unmade unmade' unmade'' lists lists' lists'' : List (List α)}

theorem Grows.refl (h : Fits H lists) : Grows H unmade lists H unmade lists :=
  ⟨⟨[], by simp, by simp, by simp⟩, h.lookup⟩

theorem Grows.trans (h : Grows H unmade lists H' unmade' lists')
    (h' : Grows H' unmade' lists' H'' unmade'' lists'') :
    Grows H unmade lists H'' unmade'' lists'' := by
  obtain ⟨⟨made, hl, hu, hs⟩, -⟩ := h
  obtain ⟨⟨made', hl', hu', hs'⟩, hk⟩ := h'
  refine ⟨⟨made ++ made', ?_, ?_, ?_⟩, hk⟩
  · rw [hl', hl, List.append_assoc]
  · rw [hu, hu', List.append_assoc]
  · rw [List.length_append, ← List.range'_append_1, ← List.append_assoc]
    refine hs'.trans ?_
    rw [hl, List.length_append]
    exact hs.append (List.Sublist.refl _)

theorem Grows.fits (h : Grows H unmade lists H' unmade' lists') (hf : Fits H lists) :
    Fits H' lists' := by
  obtain ⟨⟨made, hl, hu, hs⟩, hk⟩ := h
  refine ⟨List.Pairwise.sublist hs (List.pairwise_append.mpr ⟨hf.ascending, ?_, ?_⟩), hk⟩
  · exact List.pairwise_lt_range'
  · intro i hi j hj
    have := hf.slot_lt hi
    have := (List.mem_range'_1.mp hj).1
    omega

theorem Grows.append_unmade (h : Grows H unmade lists H' unmade' lists') (more : List (List α)) :
    Grows H (unmade ++ more) lists H' (unmade' ++ more) lists' := by
  obtain ⟨⟨made, hl, hu, hs⟩, hk⟩ := h
  exact ⟨⟨made, hl, by rw [hu, List.append_assoc], hs⟩, hk⟩

theorem Grows.append_left (h : Grows H unmade lists H' unmade' lists') (hf : Fits K lists) :
    Grows (K ++ H) unmade lists (K ++ H') unmade' lists' := by
  obtain ⟨⟨made, hl, hu, hs⟩, hk⟩ := h
  refine ⟨⟨made, hl, hu, ?_⟩, ?_⟩
  · rw [slots_append, slots_append, List.append_assoc]
    exact (List.Sublist.refl _).append hs
  · intro e he
    rcases List.mem_append.mp he with he | he
    · have hlt := hf.slot_lt (mem_slots he)
      rw [hl, List.getElem?_append_left hlt]
      exact hf.lookup e he
    · exact hk e he

theorem Grows.sublist (h : Grows H unmade lists H' unmade' lists') (hs : H''.Sublist H') :
    Grows H unmade lists H'' unmade' lists' := by
  obtain ⟨⟨made, hl, hu, hs'⟩, hk⟩ := h
  exact ⟨⟨made, hl, hu, (hs.map _).trans hs'⟩, fun e he => hk e (hs.subset he)⟩

/-! ## Removing -/

/-- One element has been taken out of one of the lists held, all other lists have stayed. -/
structure Erases (x : α) (H : Holdings α) (lists : List (List α)) (H' : Holdings α)
    (lists' : List (List α)) : Prop where
  slots : (slots H').Sublist (slots H)
  erased : ∃ j front back, (j, front ++ x :: back) ∈ H ∧ lists' = lists.set j (front ++ back) ∧
    ∀ e ∈ H', (e.1 ≠ j ∧ e ∈ H) ∨ e = (j, front ++ back)

variable {x : α}

theorem Erases.fits (h : Erases x H lists H' lists') (hf : Fits H lists) : Fits H' lists' := by
  obtain ⟨hs, j, front, back, hm, hl, he⟩ := h
  refine ⟨hf.ascending.sublist hs, ?_⟩
  intro e heH'
  rcases he e heH' with ⟨hne, heH⟩ | rfl
  · rw [hl, List.getElem?_set_ne (Ne.symm hne)]
    exact hf.lookup e heH
  · have hlt := hf.slot_lt (mem_slots hm)
    rw [hl, List.getElem?_set_self hlt]

theorem Erases.append_left (h : Erases x H lists H' lists') (hf : Fits (K ++ H) lists) :
    Erases x (K ++ H) lists (K ++ H') lists' := by
  obtain ⟨hs, j, front, back, hm, hl, he⟩ := h
  refine ⟨?_, j, front, back, List.mem_append_right _ hm, hl, ?_⟩
  · simpa using (List.Sublist.refl (Holdings.slots K)).append hs
  · intro e heK
    rcases List.mem_append.mp heK with heK | heH'
    · have hp := hf.ascending
      rw [slots_append, List.pairwise_append] at hp
      have hlt := hp.2.2 _ (mem_slots heK) _ (mem_slots hm)
      exact Or.inl ⟨by simpa using Nat.ne_of_lt hlt, List.mem_append_left _ heK⟩
    · rcases he e heH' with ⟨hne, heH⟩ | rfl
      · exact Or.inl ⟨hne, List.mem_append_right _ heH⟩
      · exact Or.inr rfl

/-- What is held to the right stays, and what the element is taken out of may be given up. -/
theorem Erases.append_right (h : Erases x H lists H' lists') (hf : Fits (H ++ K) lists) :
    Erases x (H ++ K) lists K lists' := by
  obtain ⟨hs, j, front, back, hm, hl, he⟩ := h
  refine ⟨?_, j, front, back, List.mem_append_left _ hm, hl, ?_⟩
  · simp
  · intro e heK
    have hp := hf.ascending
    rw [slots_append, List.pairwise_append] at hp
    have hlt := hp.2.2 _ (mem_slots hm) _ (mem_slots heK)
    exact Or.inl ⟨by simpa using Nat.ne_of_gt hlt, List.mem_append_right _ heK⟩

theorem Erases.exists_eq (h : Erases x H lists H' lists') (hf : Fits H lists) :
    ∃ before front back after, lists = before ++ (front ++ x :: back) :: after ∧
      lists' = before ++ (front ++ back) :: after := by
  obtain ⟨hs, j, front, back, hm, hl, -⟩ := h
  obtain ⟨hlt, hj⟩ := List.getElem?_eq_some_iff.mp (hf.lookup _ hm)
  refine ⟨lists.take j, front, back, lists.drop (j + 1), ?_, ?_⟩
  · simp only at hj
    rw [← hj, List.getElem_cons_drop, List.take_append_drop]
  · rw [hl, List.set_eq_take_append_cons_drop, if_pos hlt]

end Holdings

end ClassListing.CursorExpression
