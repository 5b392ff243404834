import DataTree.Entries
import Mathlib.Data.List.Forall2
import Mathlib.Data.List.Perm.Basic

/-!
# Lists that match

`Matched R l l'`: after some reordering of `l`, the two lists are related element by element.
Matching lists stay so when each element gives way to matching lists (`Matched.flatMap`), and two
mappings with the same keys have matching values if what stands under each key is related
(`Entries.matched_values`).
-/

namespace DataTree

variable {α β γ δ : Type} {R : α → β → Prop} {S : γ → δ → Prop} {l : List α} {l' : List β}

theorem forall₂_filter {f : α → Bool} {g : β → Bool} (h : List.Forall₂ R l l')
    (hfg : ∀ a b, R a b → f a = g b) : List.Forall₂ R (l.filter f) (l'.filter g) := by
  refine List.rel_filter (fun a b hab => ?_) h
  show f a = true ↔ g b = true
  rw [hfg a b hab]

def Matched (R : α → β → Prop) (l : List α) (l' : List β) : Prop :=
  ∃ m, l.Perm m ∧ List.Forall₂ R m l'

namespace Matched

theorem of_forall₂ (h : List.Forall₂ R l l') : Matched R l l' :=
  ⟨l, .refl l, h⟩

theorem nil : Matched R [] [] :=
  of_forall₂ .nil

theorem singleton {a : α} {b : β} (h : R a b) : Matched R [a] [b] :=
  of_forall₂ (.cons h .nil)

theorem symm (h : Matched R l l') : Matched (fun b a => R a b) l' l := by
  obtain ⟨m, hp, hf⟩ := h
  obtain ⟨m', hf', hp'⟩ := List.perm_comp_forall₂ hp hf
  exact ⟨m', hp'.symm, hf'.flip⟩

theorem length_eq (h : Matched R l l') : l.length = l'.length := by
  obtain ⟨m, hp, hf⟩ := h
  exact hp.length_eq.trans hf.length_eq

theorem exists_of_mem (h : Matched R l l') {a : α} (ha : a ∈ l) : ∃ b ∈ l', R a b := by
  obtain ⟨m, hp, hf⟩ := h
  have ha := hp.mem_iff.1 ha
  clear hp
  induction hf with
  | nil => cases ha
  | cons hab _ ih =>
    rcases List.mem_cons.1 ha with rfl | ha
    · exact ⟨_, List.mem_cons_self, hab⟩
    · obtain ⟨b, hb, h⟩ := ih ha
      exact ⟨b, List.mem_cons_of_mem _ hb, h⟩

theorem singleton_left {a : α} (h : Matched R [a] l') : ∃ b, l' = [b] ∧ R a b := by
  obtain ⟨b, rfl⟩ := List.length_eq_one_iff.1 h.length_eq.symm
  obtain ⟨b', hb, hab⟩ := h.exists_of_mem (List.mem_singleton_self a)
  exact ⟨b, rfl, List.mem_singleton.1 hb ▸ hab⟩

theorem append {m : List α} {m' : List β} (h : Matched R l l') (h' : Matched R m m') :
    Matched R (l ++ m) (l' ++ m') := by
  obtain ⟨k, hp, hf⟩ := h
  obtain ⟨k', hp', hf'⟩ := h'
  exact ⟨k ++ k', hp.append hp', List.rel_append hf hf'⟩

theorem map {f : α → γ} {g : β → δ} (h : Matched R l l') (hfg : ∀ a b, R a b → S (f a) (g b)) :
    Matched S (l.map f) (l'.map g) := by
  obtain ⟨m, hp, hf⟩ := h
  exact ⟨m.map f, hp.map f, List.rel_map (fun a b => hfg a b) hf⟩

theorem map_perm {f : α → γ} {g : β → γ} (h : Matched R l l') (hfg : ∀ a b, R a b → f a = g b) :
    (l.map f).Perm (l'.map g) := by
  obtain ⟨m, hp, hf⟩ := h.map (S := Eq) hfg
  rw [List.forall₂_eq_eq_eq] at hf
  exact hf ▸ hp

theorem filterMap {f : α → Option γ} {g : β → Option δ} (h : Matched R l l')
    (hfg : ∀ a b, R a b → Option.Rel S (f a) (g b)) :
    Matched S (l.filterMap f) (l'.filterMap g) := by
  obtain ⟨m, hp, hf⟩ := h
  exact ⟨m.filterMap f, hp.filterMap f, List.rel_filterMap (fun a b => hfg a b) hf⟩

theorem filter {f : α → Bool} {g : β → Bool} (h : Matched R l l')
    (hfg : ∀ a b, R a b → f a = g b) : Matched R (l.filter f) (l'.filter g) := by
  obtain ⟨m, hp, hf⟩ := h
  exact ⟨m.filter f, hp.filter f, forall₂_filter hf hfg⟩

theorem flatten {m : List (List γ)} {m' : List (List δ)} (h : List.Forall₂ (Matched S) m m') :
    Matched S m.flatten m'.flatten := by
  induction h with
  | nil => exact nil
  | cons hab _ ih => exact hab.append ih

theorem flatMap {f : α → List γ} {g : β → List δ} (h : Matched R l l')
    (hfg : ∀ a ∈ l, ∀ b, R a b → Matched S (f a) (g b)) :
    Matched S (l.flatMap f) (l'.flatMap g) := by
  obtain ⟨m, hp, hf⟩ := h
  have hf : List.Forall₂ (fun a b => a ∈ l ∧ R a b) m l' :=
    (List.forall₂_and_left m l').2 ⟨fun a ha => hp.mem_iff.2 ha, hf⟩
  have hm : List.Forall₂ (Matched S) (m.map f) (l'.map g) :=
    List.rel_map (fun a b hab => hfg a hab.1 b hab.2) hf
  obtain ⟨k, hk, hkf⟩ := flatten hm
  exact ⟨k, (hp.flatMap_right f).trans hk, hkf⟩

end Matched

/-! ## Values of mappings -/

namespace Entries

variable {κ : Type} [DecidableEq κ]

/-- What stands under the same key is related. -/
def Related (R : α → β → Prop) (m : Entries κ α) (m' : Entries κ β) : Prop :=
  ∀ {key : κ} {a : α} {b : β}, m.get? key = some a → m'.get? key = some b → R a b

theorem forall₂_of_related {m : Entries κ α} {m' : Entries κ β} (hn : m.keys.Nodup)
    (hk : m.keys = m'.keys) (hr : Related R m m') :
    List.Forall₂ (fun e e' => e.1 = e'.1 ∧ R e.2 e'.2) m m' := by
  induction m generalizing m' with
  | nil =>
    cases m' with
    | nil => exact .nil
    | cons _ _ => cases hk
  | cons e m ih =>
    cases m' with
    | nil => cases hk
    | cons e' m' =>
      obtain ⟨key, a⟩ := e
      obtain ⟨key', b⟩ := e'
      obtain ⟨rfl, hks⟩ := List.cons.inj hk
      obtain ⟨hnk, hn⟩ := List.nodup_cons.1 hn
      refine .cons ⟨rfl, hr (if_pos rfl) (if_pos rfl)⟩ (ih hn hks fun {key''} x y hx hy => ?_)
      have hne : key ≠ key'' := by
        rintro rfl
        exact hnk (mem_keys_of_mem (mem_of_get? hx))
      exact hr ((if_neg hne).trans hx) ((if_neg hne).trans hy)

theorem forall₂_values {m : Entries κ α} {m' : Entries κ β} (hn : m.keys.Nodup)
    (hk : m.keys = m'.keys) (hr : Related R m m') : List.Forall₂ R m.values m'.values := by
  rw [values, values, List.forall₂_map_left_iff, List.forall₂_map_right_iff]
  exact (forall₂_of_related hn hk hr).imp fun _ _ he => he.2

theorem matched_values {m : Entries κ α} {m' : Entries κ β} (hn : m.keys.Nodup)
    (hk : m.keys.Perm m'.keys) (hr : Related R m m') : Matched R m.values m'.values := by
  have hcomp := List.eq_map_comp_perm (Prod.fst : κ × α → κ)
  obtain ⟨m₂, hk₂, hp⟩ : ∃ m₂ : Entries κ α, m'.keys = m₂.keys ∧ m₂.Perm m := by
    have : (fun (l : List κ) (n : List (κ × α)) => l.Perm (n.map Prod.fst)) m'.keys m := hk.symm
    rw [← hcomp] at this
    exact this
  have hn₂ : m₂.keys.Nodup := (hp.map Prod.fst).nodup_iff.2 hn
  refine ⟨m₂.values, (hp.map Prod.snd).symm, forall₂_values hn₂ hk₂.symm fun hx hy => ?_⟩
  exact hr ((get?_perm hp hn₂ _).symm.trans hx) hy

theorem rel_get? {m : Entries κ α} {m' : Entries κ β} (hk : m.keys.Perm m'.keys)
    (hr : Related R m m') (key : κ) : Option.Rel R (m.get? key) (m'.get? key) := by
  by_cases hm : key ∈ m.keys
  · obtain ⟨a, ha⟩ := Option.isSome_iff_exists.1 (has_iff_mem_keys.2 hm)
    obtain ⟨b, hb⟩ := Option.isSome_iff_exists.1 (has_iff_mem_keys.2 (hk.mem_iff.1 hm))
    rw [ha, hb]
    exact .some (hr ha hb)
  · rw [get?_eq_none_iff.2 hm, get?_eq_none_iff.2 fun hm' => hm (hk.mem_iff.2 hm')]
    exact .none

end Entries

end DataTree
