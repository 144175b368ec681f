import Changelog.Proofs.Markdown.CodeSpan

/-! # Constructs as they stand in a text

Code, links and the three forms of references are all that begins at a backtick or a bracket. Each is told from the text
it takes, and what begins with a bracket is read again from that text.
-/

namespace Changelog.Inline

variable {text label rest : Text} {construct : Construct}

/-! ## Labels -/

theorem eq_of_readLabel (h : readLabel text = some (label, rest)) : text = label ++ ']' :: rest := by
  fun_induction readLabel text generalizing label with
  | case1 => contradiction
  | case2 =>
      cases h
      rfl
  | case3 => contradiction
  | case4 => contradiction
  | case5 => contradiction
  | case6 c rest' _ ih =>
      obtain ⟨⟨l, r⟩, hr, heq⟩ := Option.map_eq_some_iff.mp h
      cases heq
      rw [ih hr]
      rfl
  | case7 c rest' _ _ _ _ ih =>
      obtain ⟨⟨l, r⟩, hr, heq⟩ := Option.map_eq_some_iff.mp h
      cases heq
      rw [ih hr]
      rfl

/-- A label that is read back in front of its closing bracket. -/
def IsLabel (label : Text) : Prop := ∀ rest, readLabel (label ++ ']' :: rest) = some (label, rest)

theorem isLabel_of_readLabel (h : readLabel text = some (label, rest)) : IsLabel label := by
  intro post
  fun_induction readLabel text generalizing label with
  | case1 => contradiction
  | case2 =>
      cases h
      rfl
  | case3 => contradiction
  | case4 => contradiction
  | case5 => contradiction
  | case6 c text hc ih =>
      simp only [Option.map_eq_some_iff, Prod.exists, Prod.mk.injEq] at h
      obtain ⟨label, after, hread, rfl, rfl⟩ := h
      rw [List.cons_append, List.cons_append, readLabel, if_neg hc, ih hread]
      rfl
  | case7 c text hclose hopen hlast hescape ih =>
      simp only [Option.map_eq_some_iff, Prod.exists, Prod.mk.injEq] at h
      obtain ⟨label, after, hread, rfl, rfl⟩ := h
      have plain : c ≠ '\x5c' := by
        rintro rfl
        cases text with
        | nil => exact hlast rfl rfl
        | cons d text => exact hescape d text rfl rfl
      rw [List.cons_append]
      simp [readLabel, plain, ih hread]

/-! ## Constructs -/

def linkNode (url : Text) (title : Option Text) : Node := { kind := .link, url := some url, title }

/-- How a construct stands in a text. -/
inductive IsRead : Text → Construct → Prop
  | code {k : Nat} {code rest : Text} : 1 ≤ k → rest.head? ≠ some '\x60' →
      readCode k (code ++ (ticks k ++ rest)) = some (code, rest) →
      IsRead (ticks k ++ (code ++ (ticks k ++ rest))) { node := codeNode code, rest }
  | link {label target url rest : Text} {title : Option Text} : IsLabel label →
      readTarget target = some (url, title, rest) →
      IsRead ('[' :: (label ++ ']' :: '(' :: target)) { node := linkNode url title, inner := label, rest }
  | full {label second rest : Text} : IsLabel label → label ≠ [] → IsLabel second → second ≠ [] →
      IsRead ('[' :: (label ++ ']' :: '[' :: (second ++ ']' :: rest)))
        { node := reference second .full, inner := label, rest }
  | collapsed {label rest : Text} : IsLabel label → label ≠ [] →
      IsRead ('[' :: (label ++ ']' :: '[' :: ']' :: rest)) { node := reference label .collapsed, inner := label, rest }
  | shortcut {label rest : Text} : IsLabel label → label ≠ [] → (∀ c ∈ rest.head?, c ∉ ['(', '[', ':']) →
      IsRead ('[' :: (label ++ ']' :: rest)) { node := reference label .shortcut, inner := label, rest }

theorem isRead_of_readBracketed (h : readBracketed text = some construct) : IsRead ('[' :: text) construct := by
  simp only [readBracketed, Option.bind_eq_bind, Option.bind_eq_some_iff, Prod.exists, Option.orElse_eq_orElse,
    Option.orElse_eq_or, Option.or_eq_some_iff] at h
  obtain ⟨label, after, hread, h⟩ := h
  have hlabel := isLabel_of_readLabel hread
  rw [eq_of_readLabel hread]
  rcases h with h | ⟨_, h | ⟨_, h⟩⟩
  · unfold readLink at h
    split at h
    next target =>
      obtain ⟨⟨url, title, rest⟩, htarget, rfl⟩ := Option.map_eq_some_iff.mp h
      exact .link hlabel htarget
    next => contradiction
  · unfold readFullReference at h
    split at h
    next after =>
      split at h
      · contradiction
      next filled =>
        have hne : label ≠ [] := by simpa using filled
        obtain ⟨⟨second, rest⟩, hsecond, heq⟩ := Option.map_eq_some_iff.mp h
        rw [eq_of_readLabel hsecond]
        dsimp only at heq
        split at heq <;> subst heq
        next empty =>
          rw [List.isEmpty_iff.mp empty]
          exact .collapsed hlabel hne
        next full => exact .full hlabel hne (isLabel_of_readLabel hsecond) (by simpa using full)
    next => contradiction
  · unfold readShortcut at h
    split at h
    · contradiction
    next alone =>
      cases h
      simp only [Bool.or_eq_true, not_or, List.isEmpty_iff, Bool.not_eq_true] at alone
      refine .shortcut hlabel alone.1 fun c hc => ?_
      have := alone.2
      rw [Option.mem_def.mp hc, Option.map_some, Option.getD_some] at this
      simpa [and_assoc] using this

theorem isRead_of_readConstruct (h : readConstruct text = some construct) : IsRead text construct := by
  unfold readConstruct at h
  split at h
  · contradiction
  next c rest =>
    split at h
    next hc =>
      rw [hc]
      exact isRead_of_readBracketed h
    next =>
      split at h
      · obtain ⟨k, code, rest', positive, rfl, heq, stops, hread⟩ := exists_of_readCodeSpan h
        rw [heq]
        exact .code positive stops hread
      · contradiction

theorem kind_ne_text_of_isRead (h : IsRead text construct) : construct.node.kind ≠ .text := by
  cases h <;> nofun

theorem readConstruct_of_isRead (h : IsRead text construct) (bracketed : construct.node.kind ≠ .inlineCode) :
    readConstruct text = some construct := by
  cases h with
  | code => exact absurd rfl bracketed
  | link hlabel htarget => simp [readConstruct, readBracketed, hlabel _, readLink, htarget, linkNode]
  | full hlabel hne hsecond filled =>
      simp [readConstruct, readBracketed, hlabel _, readLink, readFullReference, hsecond _, hne, filled]
  | collapsed hlabel hne =>
      simp [readConstruct, readBracketed, hlabel _, readLink, readFullReference, readLabel, hne]
  | @shortcut label rest hlabel hne next =>
      have unlinked : readLink label rest = none := by
        unfold readLink
        split
        · exact absurd (next _ rfl) (by simp)
        · rfl
      have unreferred : readFullReference label rest = none := by
        unfold readFullReference
        split
        · exact absurd (next _ rfl) (by simp)
        · rfl
      have alone : (rest.head?.map fun c => c == '(' || c == '[' || c == ':').getD false = false := by
        cases hrest : rest.head? with
        | none => rfl
        | some c => simpa [and_assoc] using next c hrest
      simp [readConstruct, readBracketed, hlabel _, unlinked, unreferred, readShortcut, hne, alone]

end Changelog.Inline
