/-! # Names without regard to case

Keywords, node names, species and sites are compared after ASCII letters have been put into
lower case.  Other letters keep their case.
-/

namespace SiteAnalysis

/-- The text with its ASCII letters in lower case. -/
def foldCase (s : String) : String := String.ofList (s.toList.map Char.toLower)

/-- **Equality without regard to ASCII case.** -/
def sameName (s t : String) : Bool := s.toList.map Char.toLower == t.toList.map Char.toLower

theorem sameName_iff {s t : String} : sameName s t = true ↔ foldCase s = foldCase t := by
  simp [sameName, foldCase, String.ofList_inj]

@[simp] theorem sameName_refl (s : String) : sameName s s = true := by simp [sameName]

end SiteAnalysis
