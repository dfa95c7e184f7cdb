/-
# The order of a report

Diagnostics are compared by file, range, code and message, and a report is sorted stably. So it
does not matter to the order of some diagnostics which others are reported with them: sorting
fewer of them gives what is left of sorting all.

Key theorems: `mergeSort_cons_eq`, `mergeSort_sublist`, `Diagnostic.inReportOrder_sublist`.
-/
import Deferral.Diagnostic

namespace Deferral

section

variable {α : Type} {le : α → α → Bool}

/-- Of two elements one does not come after the other. -/
theorem isLE_total (cmp : α → α → Ordering) [Std.OrientedCmp cmp] (a b : α) :
    ((cmp a b).isLE || (cmp b a).isLE) = true := by
  have hswap : cmp b a = (cmp a b).swap := Std.OrientedCmp.eq_swap
  rw [hswap]
  cases cmp a b <;> rfl

/-- A stable sort puts the first element before its equals. -/
theorem mergeSort_cons_eq (trans : ∀ a b c, le a b = true → le b c = true → le a c = true)
    (total : ∀ a b, (le a b || le b a) = true) (a : α) (l : List α) :
    (a :: l).mergeSort le =
      (l.mergeSort le).filter (fun b => !le a b) ++ a :: (l.mergeSort le).filter (le a) := by
  obtain ⟨l₁, l₂, hcons, hl, hbefore⟩ := List.mergeSort_cons trans total a l
  have hsorted : (l₁ ++ a :: l₂).Pairwise (fun a b => le a b = true) := by
    rw [← hcons]
    exact List.pairwise_mergeSort trans total _
  have hafter : ∀ b ∈ l₂, le a b = true :=
    (List.pairwise_cons.mp (List.pairwise_append.mp hsorted).2.1).1
  rw [hcons, hl, List.filter_append, List.filter_append]
  have h₁ : l₁.filter (fun b => !le a b) = l₁ := List.filter_eq_self.mpr hbefore
  have h₁' : l₁.filter (le a) = [] := by
    rw [List.filter_eq_nil_iff]
    intro b hb
    have hlt := hbefore b hb
    simpa using hlt
  have h₂ : l₂.filter (le a) = l₂ := List.filter_eq_self.mpr hafter
  have h₂' : l₂.filter (fun b => !le a b) = [] := by
    rw [List.filter_eq_nil_iff]
    intro b hb
    simp [hafter b hb]
  rw [h₁, h₁', h₂, h₂', List.append_nil, List.nil_append]

/-- Sorting some of the elements gives what is left of sorting all. -/
theorem mergeSort_sublist (trans : ∀ a b c, le a b = true → le b c = true → le a c = true)
    (total : ∀ a b, (le a b || le b a) = true) {l l' : List α} (h : l.Sublist l') :
    (l.mergeSort le).Sublist (l'.mergeSort le) := by
  induction h with
  | slnil => exact List.Sublist.refl _
  | @cons l l' a _ ih =>
    obtain ⟨l₁, l₂, hcons, hl, -⟩ := List.mergeSort_cons trans total a l'
    rw [hcons]
    rw [hl] at ih
    exact ih.trans ((List.Sublist.refl l₁).append (List.sublist_cons_self a l₂))
  | @cons_cons l l' a _ ih =>
    rw [mergeSort_cons_eq trans total, mergeSort_cons_eq trans total]
    exact (ih.filter _).append ((ih.filter _).cons_cons a)

end

namespace Diagnostic

theorem order_eq : order =
    compareLex (compareOn (·.primary.file)) (compareLex (compareOn (·.primary.range.start))
      (compareLex (compareOn (·.primary.range.stop))
        (compareLex (compareOn (·.code)) (compareOn (·.message))))) := rfl

instance : Std.TransCmp order := by
  rw [order_eq]
  infer_instance

/-- A report of some diagnostics is what is left of a report of all. -/
theorem inReportOrder_sublist {ds ds' : List Diagnostic} (h : ds.Sublist ds') :
    (inReportOrder ds).Sublist (inReportOrder ds') :=
  mergeSort_sublist (fun _ _ _ => Std.TransCmp.isLE_trans) (isLE_total order) h

end Diagnostic
end Deferral
