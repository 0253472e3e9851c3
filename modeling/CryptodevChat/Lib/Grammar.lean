import Mathlib.Data.List.Basic

namespace CryptodevChat.Lib

variable {α : Type*}

-- Words of which none is empty and none starts another one.
structure PrefixFree (W : List α → Prop) : Prop where
  nonempty : ¬W []
  eq_of_prefix : ∀ u v, W u → W v → u <+: v → u = v

-- The words at the start of a text, as many of them as there are.
inductive Parse (W : List α → Prop) : List α → List (List α) → Prop
  | stop (text : List α) (hnone : ∀ w, W w → ¬w <+: text) : Parse W text []
  | word (w text : List α) (words : List (List α)) (hw : W w) (rest : Parse W text words) :
      Parse W (w ++ text) (w :: words)

variable {W : List α → Prop} {text : List α} {words words' : List (List α)}

theorem PrefixFree.append_inj (hW : PrefixFree W) {u v s t : List α} (hu : W u) (hv : W v)
    (h : u ++ s = v ++ t) : u = v ∧ s = t := by
  have hsame : u = v := by
    rcases List.prefix_or_prefix_of_prefix (List.prefix_append u s) (h ▸ List.prefix_append v t)
      with huv | hvu
    · exact hW.eq_of_prefix u v hu hv huv
    · exact (hW.eq_of_prefix v u hv hu hvu).symm
  subst hsame
  exact ⟨rfl, List.append_cancel_left h⟩

theorem PrefixFree.mono {V : List α → Prop} (hW : PrefixFree W) (h : ∀ w, V w → W w) : PrefixFree V where
  nonempty := fun hV => hW.nonempty (h [] hV)
  eq_of_prefix := fun u v hu hv => hW.eq_of_prefix u v (h u hu) (h v hv)

-- Words at the start of a text of words are its first words.
theorem PrefixFree.flatten_prefix (hW : PrefixFree W) (us vs : List (List α)) (hus : ∀ u ∈ us, W u)
    (hvs : ∀ v ∈ vs, W v) (h : us.flatten <+: vs.flatten) : us <+: vs := by
  induction us generalizing vs with
  | nil => exact List.nil_prefix
  | cons u us ih =>
      obtain ⟨hu, hus⟩ := List.forall_mem_cons.mp hus
      obtain ⟨rest, hrest⟩ := h
      cases vs with
      | nil =>
          have hnil : u = [] := (List.append_eq_nil_iff.mp (List.append_eq_nil_iff.mp hrest).1).1
          exact absurd (hnil ▸ hu) hW.nonempty
      | cons v vs =>
          obtain ⟨hv, hrests⟩ := List.forall_mem_cons.mp hvs
          rw [List.flatten_cons, List.flatten_cons, List.append_assoc] at hrest
          obtain ⟨rfl, htail⟩ := hW.append_inj hu hv hrest
          exact List.prefix_cons_inj u |>.mpr (ih vs hus hrests ⟨rest, htail⟩)

-- A text can be read in one way.
theorem Parse.unique (hW : PrefixFree W) (h : Parse W text words) (h' : Parse W text words') :
    words = words' := by
  induction h generalizing words' with
  | stop text hnone =>
      cases h' with
      | stop => rfl
      | word w text words hw rest => exact absurd (List.prefix_append w text) (hnone w hw)
  | word w text words hw rest ih =>
      generalize htext : w ++ text = whole at h'
      cases h' with
      | stop _ hnone => exact absurd (htext ▸ List.prefix_append w text) (hnone w hw)
      | word v rest' words' hv h' =>
          obtain ⟨rfl, rfl⟩ := hW.append_inj hw hv htext
          rw [ih h']

theorem Parse.of_words (words : List (List α)) (tail : List α) (hwords : ∀ w ∈ words, W w)
    (hnone : ∀ w, W w → ¬w <+: tail) : Parse W (words.flatten ++ tail) words := by
  induction words with
  | nil => exact .stop tail hnone
  | cons w words ih =>
      obtain ⟨hw, hwords⟩ := List.forall_mem_cons.mp hwords
      rw [List.flatten_cons, List.append_assoc]
      exact .word w _ words hw (ih hwords)

end CryptodevChat.Lib
