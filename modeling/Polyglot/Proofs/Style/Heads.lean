import Polyglot.Style.Head

/-!
Style heads list each text once, in the order in which the texts first came.
-/

namespace Polyglot.Style.Head

variable {h : Head} {css : String}

/--
A head lists no text twice, and has seen exactly the texts that it lists.
-/
structure Sound (h : Head) : Prop where
  nodup : h.styles.Nodup
  seen : ∀ css, css ∈ h.seen ↔ css ∈ h.styles

theorem sound_empty : Sound {} := ⟨List.nodup_nil, fun _ => Iff.rfl⟩

theorem styles_append (hs : h.Sound) (css : String) :
    (h.append css).styles = if css ∈ h.styles then h.styles else h.styles ++ [css] := by
  simp only [append, hs.seen]
  split <;> rfl

theorem Sound.append (hs : h.Sound) (css : String) : (h.append css).Sound := by
  rw [Head.append]
  split
  · exact hs
  · next hnew =>
    rw [hs.seen] at hnew
    refine ⟨?_, fun css' => ?_⟩
    · rw [List.nodup_append]
      refine ⟨hs.nodup, List.nodup_cons.mpr ⟨List.not_mem_nil, .nil⟩, ?_⟩
      rintro css' hmem _ hself rfl
      exact hnew (List.mem_singleton.mp hself ▸ hmem)
    · simp [hs.seen, or_comm]

theorem Sound.appendAll (hs : h.Sound) (sheets : List String) : (h.appendAll sheets).Sound := by
  induction sheets generalizing h with
  | nil => exact hs
  | cons css sheets ih => exact ih (hs.append css)

theorem appendAll_append (h : Head) (sheets sheets' : List String) :
    h.appendAll (sheets ++ sheets') = (h.appendAll sheets).appendAll sheets' :=
  List.foldl_append

theorem styles_appendAll (hs : h.Sound) (sheets : List String) :
    (h.appendAll sheets).styles = h.styles ++ (sheets.filter (· ∉ h.styles)).eraseDups := by
  induction sheets generalizing h with
  | nil => simp [appendAll]
  | cons css sheets ih =>
    change ((h.append css).appendAll sheets).styles = _
    rw [ih (hs.append css), styles_append hs]
    by_cases hmem : css ∈ h.styles
    · simp [hmem]
    · have hfilter : sheets.filter (· ∉ h.styles ++ [css]) =
          (sheets.filter (· ∉ h.styles)).filter (! · == css) := by
        rw [List.filter_filter]
        apply List.filter_congr
        intro css' _
        by_cases heq : css' = css <;> simp [heq]
      rw [if_neg hmem, hfilter, List.append_assoc, List.filter_cons_of_pos (by simpa using hmem),
        List.eraseDups_cons]
      rfl

theorem mem_styles_appendAll (hs : h.Sound) {sheets : List String} :
    css ∈ (h.appendAll sheets).styles ↔ css ∈ h.styles ∨ css ∈ sheets := by
  rw [styles_appendAll hs, List.mem_append, List.mem_eraseDups, List.mem_filter]
  by_cases hmem : css ∈ h.styles <;> simp [hmem]

def ofLog (log : List String) : Head := ({} : Head).appendAll log

theorem sound_ofLog (log : List String) : (ofLog log).Sound := sound_empty.appendAll log

theorem ofLog_append (log sheets : List String) : ofLog (log ++ sheets) = (ofLog log).appendAll sheets :=
  appendAll_append _ _ _

theorem styles_ofLog (log : List String) : (ofLog log).styles = log.eraseDups := by
  rw [ofLog, styles_appendAll sound_empty, List.filter_eq_self.mpr fun _ _ => by simp]
  rfl

end Polyglot.Style.Head
