import Changelog.Proofs.Project.Address

/-! # The browsable address of a browsable address

A browsable address is meant to be the last word on where a repository is: without the extension, without a slash at its end,
and its own browsable address. So it is, unless its path is empty or has the extension, or its host shows a user.
-/

namespace Changelog

namespace Hosting

open Text (ofString)

/-- Has an address neither the extension nor a slash at its end, and is it its own browsable address? -/
structure IsNormal (url : Text) : Prop where
  noExtension : ¬extension <:+ url
  noSlash : ¬['/'] <:+ url
  fixed : url? url = some url

/-- Does a host begin with what is taken for a user when it is read again? -/
def ShowsUser (host : Text) : Prop := ∃ user rest, host = user ++ '@' :: rest ∧ user ≠ [] ∧ '@' ∉ user ∧ rest ≠ []

/-- What is read as host and path. -/
structure IsHosted (host path : Text) : Prop where
  filled : host ≠ []
  apart : ∀ c ∈ host, c ≠ '/' ∧ c ≠ ':'
  alike : ∀ c ∈ path, isPathChar c
  first : path.head? ≠ some '/'
  last : path.getLast? ≠ some '/'

variable {repository url host path text rest user name owner : Text} {c : Char}

/-! ## What is read -/

theorem of_readName (h : readName text = some (name, rest)) : name ≠ [] ∧ ∀ c ∈ name, isNameChar c := by
  unfold readName at h
  dsimp only at h
  split at h
  · contradiction
  next filled =>
    cases h
    exact ⟨by simpa using filled, fun c hc => List.mem_takeWhile_imp hc⟩

theorem of_shorthand? (h : shorthand? text = some (owner, name)) :
    (owner ≠ [] ∧ ∀ c ∈ owner, isNameChar c) ∧ name ≠ [] ∧ ∀ c ∈ name, isNameChar c := by
  rw [shorthand?] at h
  simp only [Option.bind_eq_bind, Option.bind_eq_some_iff, Prod.exists] at h
  obtain ⟨_, _, howner, _, _, _, _, hname, h⟩ := h
  split at h
  · cases h
    exact ⟨of_readName howner, of_readName hname⟩
  · contradiction

theorem dropExtension_isPrefix (path : Text) : dropExtension path <+: path := by
  have prefixOf {ending front : Text} (h : dropEnding? ending path = some front) : front <+: path :=
    ⟨ending, List.isSuffixOf?_eq_some_iff_append_eq.mp (Option.eq_some_of_filter_eq_some h)⟩
  unfold dropExtension
  cases both : dropEnding? (ofString ".git/") path with
  | some front => exact prefixOf both
  | none =>
      cases extended : dropEnding? (ofString ".git") path with
      | some front => exact prefixOf extended
      | none =>
          cases closed : dropEnding? ['/'] path with
          | some front => exact prefixOf closed
          | none => exact List.prefix_rfl

theorem of_readPath (h : readPath text = some path) :
    (∀ c ∈ path, isPathChar c) ∧ path.head? ≠ some '/' ∧ path.getLast? ≠ some '/' := by
  unfold readPath at h
  split at h
  next legal =>
    cases h
    have front := Text.dropTailWhile_isPrefix (· == '/') ((dropExtension text).dropWhile (· == '/'))
    refine ⟨fun c hc => ?_, fun hfirst => ?_, fun hlast => ?_⟩
    · have hmem := (dropExtension_isPrefix text).subset ((List.dropWhile_suffix (· == '/')).subset (front.subset hc))
      exact List.all_eq_true.mp (Bool.and_eq_true_iff.mp legal).2 c hmem
    · obtain ⟨back, heq⟩ := front
      have hfirst : ((dropExtension text).dropWhile (· == '/')).head? = some '/' := by
        rw [← heq, List.head?_append, hfirst]
        rfl
      exact absurd (Text.eq_false_of_head?_dropWhile hfirst) (by decide)
    · exact absurd (Text.eq_false_of_getLast?_dropTailWhile hlast) (by decide)
  next => contradiction

theorem isHosted_of_readHostPath (h : readHostPath text = some (host, path)) : IsHosted host path := by
  unfold readHostPath at h
  dsimp only at h
  split at h
  · contradiction
  next filled =>
    simp only [Option.bind_eq_bind, Option.bind_eq_some_iff] at h
    obtain ⟨_, _, _, _, path, hpath, h⟩ := h
    cases h
    obtain ⟨alike, first, last⟩ := of_readPath hpath
    exact ⟨by simpa using filled, fun c hc => by simpa using List.mem_takeWhile_imp hc, alike, first, last⟩

theorem isHosted_of_shell? (h : shell? text = some (host, path)) : IsHosted host path := by
  have behind (place : Text × Text) (named : place.1 ≠ [] ∧ ∀ c ∈ place.1, isNameChar c)
      (h : ((Text.dropLead? [':'] place.2).bind fun path =>
        if path.startsWith ['/', '/'] then none else (readPath path).bind fun path => some (place.1, path)) = some (host, path)) :
      IsHosted host path := by
    obtain ⟨_, _, h⟩ := Option.bind_eq_some_iff.mp h
    split at h
    · contradiction
    · obtain ⟨path, hpath, h⟩ := Option.bind_eq_some_iff.mp h
      cases h
      obtain ⟨alike, first, last⟩ := of_readPath hpath
      exact ⟨named.1, fun c hc => ⟨ne_of_kind (named.2 c hc) (by decide), ne_of_kind (named.2 c hc) (by decide)⟩, alike,
        first, last⟩
  unfold shell? at h
  obtain ⟨⟨first, after⟩, hfirst, h⟩ := Option.bind_eq_some_iff.mp h
  dsimp only at h
  split at h
  · obtain ⟨place, hplace, h⟩ := Option.bind_eq_some_iff.mp h
    exact behind place (of_readName hplace) h
  · exact behind (first, after) (of_readName hfirst) h

theorem isHosted_shorthand (howner : owner ≠ [] ∧ ∀ c ∈ owner, isNameChar c) (hname : name ≠ [] ∧ ∀ c ∈ name, isNameChar c) :
    IsHosted (ofString "github.com") (owner ++ '/' :: name) where
  filled := by decide
  apart := by decide
  alike c hc := by
    rw [isPathChar, Bool.or_eq_true, beq_iff_eq]
    exact isNameChar_or_slash howner.2 hname.2 c hc
  first h := by
    rw [List.head?_append_of_ne_nil _ howner.1] at h
    exact absurd (howner.2 '/' (List.mem_of_mem_head? h)) (by decide)
  last h := by
    rw [← List.singleton_append, ← List.append_assoc, List.getLast?_append_of_ne_nil _ hname.1] at h
    exact absurd (hname.2 '/' (List.mem_of_mem_getLast? h)) (by decide)

/-- Whatever form a repository is given in, its address is that of a path on a host. -/
theorem exists_isHosted (h : url? repository = some url) : ∃ host path, IsHosted host path ∧ url = browsable host path := by
  unfold url? at h
  dsimp only at h
  split at h
  next owner name hshort =>
    cases h
    exact ⟨_, _, isHosted_shorthand (of_shorthand? hshort).1 (of_shorthand? hshort).2, rfl⟩
  next =>
    obtain ⟨⟨host, path⟩, hplace, rfl⟩ := Option.map_eq_some_iff.mp h
    refine ⟨host, path, ?_, rfl⟩
    cases haddress : address? (Text.strip repository) with
    | none =>
        rw [haddress] at hplace
        exact isHosted_of_shell? hplace
    | some place =>
        rw [haddress] at hplace
        obtain rfl : place = (host, path) := Option.some.inj hplace
        unfold address? at haddress
        obtain ⟨rest, -, haddress⟩ := Option.bind_eq_some_iff.mp haddress
        cases huser : (dropUser? rest).bind readHostPath with
        | none =>
            rw [huser] at haddress
            exact isHosted_of_readHostPath haddress
        | some place =>
            rw [huser] at haddress
            obtain rfl : place = (host, path) := Option.some.inj haddress
            obtain ⟨behind, -, hplace⟩ := Option.bind_eq_some_iff.mp huser
            exact isHosted_of_readHostPath hplace

/-! ## Reading an address again -/

theorem IsHosted.isBare (h : IsHosted host path) (filled : path ≠ []) (noExtension : ¬extension <:+ path) : IsBare path :=
  ⟨filled, h.alike, h.first, h.last, noExtension⟩

theorem browsable_eq (host path : Text) : browsable host path = ofString "https://" ++ (host ++ '/' :: path) :=
  List.append_assoc ..

theorem suffix_browsable (host path : Text) : '/' :: path <:+ browsable host path := by
  unfold browsable
  exact List.suffix_append _ _

theorem getLast?_browsable (filled : path ≠ []) : (browsable host path).getLast? = path.getLast? := by
  unfold browsable
  generalize ofString "https://" ++ host = front
  rw [List.append_cons front '/' path, List.getLast?_append_of_ne_nil _ filled]

/-- An address is read without the user that its host shows. -/
theorem url?_browsable {host' path' : Text} (h : IsBare path)
    (found : ((dropUser? (host ++ '/' :: path)).bind readHostPath <|> readHostPath (host ++ '/' :: path)) =
      some (host', path')) :
    url? (browsable host path) = some (browsable host' path') := by
  have trimmed : Text.strip (browsable host path) = browsable host path := by
    have kept := @Text.strip_between (browsable host path) [] [] nofun nofun
      (fun c hc => by
        rw [browsable_eq] at hc
        cases hc
        decide)
      (fun c hc => by
        rw [getLast?_browsable h.filled] at hc
        exact isBlankChar_of_isPathChar (h.alike c (List.mem_of_mem_getLast? hc)))
    rwa [List.nil_append, List.append_nil] at kept
  have noShorthand : shorthand? (browsable host path) = none := by
    rw [browsable_eq]
    rfl
  have hplace : address? (browsable host path) = some (host', path') := by
    have dropped : dropScheme? (browsable host path) = some (host ++ '/' :: path) := by
      rw [browsable_eq]
      rfl
    rw [address?, dropped]
    exact found
  rw [url?, trimmed]
  simp only [noShorthand, hplace]
  rfl

theorem readHostPath_bare (h : IsHosted host path) (bare : IsBare path) :
    readHostPath (host ++ '/' :: path) = some (host, path) := by
  have found := readHostPath_append h.filled h.apart none path
  have own := readPath_append bare ⟨false, false⟩
  rw [show path ++ Ending.text ⟨false, false⟩ = path by simp [Ending.text]] at own
  rwa [own] at found

theorem dropUser?_bind_eq_none (h : IsHosted host path) (hidden : ¬ShowsUser host) :
    (dropUser? (host ++ '/' :: path)).bind readHostPath = none := by
  by_cases hat : '@' ∈ host
  · obtain ⟨user, rest, rfl, apart⟩ := List.eq_append_cons_of_mem hat
    cases user with
    | nil => rfl
    | cons c user =>
        have alone : rest = [] := by
          by_contra hne
          exact hidden ⟨c :: user, rest, rfl, List.cons_ne_nil c user, apart, hne⟩
        have named : ∀ d ∈ c :: user, d ≠ '@' ∧ d ≠ '/' := fun d hd =>
          ⟨ne_of_mem_of_not_mem hd apart, (h.apart d (List.mem_append_left _ hd)).1⟩
        rw [alone, List.append_assoc, List.singleton_append, dropUser?_append (List.cons_ne_nil c user) named]
        rfl
  · rw [dropUser?_eq_none fun c hc => ⟨ne_of_mem_of_not_mem hc hat, (h.apart c hc).1⟩]
    rfl

theorem url?_of_showsUser {user : Text} (h : IsHosted (user ++ '@' :: rest) path) (bare : IsBare path) (filled : user ≠ [])
    (apart : '@' ∉ user) (hne : rest ≠ []) : url? (browsable (user ++ '@' :: rest) path) = some (browsable rest path) := by
  have inner : IsHosted rest path :=
    ⟨hne, fun c hc => h.apart c (List.mem_append_right _ (List.mem_cons_of_mem _ hc)), h.alike, h.first, h.last⟩
  have named : ∀ c ∈ user, c ≠ '@' ∧ c ≠ '/' := fun c hc =>
    ⟨ne_of_mem_of_not_mem hc apart, (h.apart c (List.mem_append_left _ hc)).1⟩
  refine url?_browsable bare ?_
  rw [List.append_assoc, List.cons_append, dropUser?_append filled named, Option.bind_some, readHostPath_bare inner bare]
  rfl

theorem isNormal_browsable_iff (h : IsHosted host path) :
    IsNormal (browsable host path) ↔ path ≠ [] ∧ ¬extension <:+ path ∧ ¬ShowsUser host := by
  constructor
  · rintro ⟨noExtension, noSlash, fixed⟩
    have filled : path ≠ [] := by
      rintro rfl
      exact noSlash (suffix_browsable host [])
    have bare : ¬extension <:+ path := fun hpath =>
      noExtension (hpath.trans ((List.suffix_cons '/' path).trans (suffix_browsable host path)))
    refine ⟨filled, bare, ?_⟩
    rintro ⟨user, rest, rfl, huser, apart, hne⟩
    rw [url?_of_showsUser h (h.isBare filled bare) huser apart hne] at fixed
    have same : rest = user ++ '@' :: rest := by
      unfold browsable at fixed
      exact List.append_cancel_left (List.append_cancel_right (Option.some.inj fixed))
    have lengths := congrArg List.length same
    rw [List.length_append, List.length_cons] at lengths
    omega
  · rintro ⟨filled, noExtension, hidden⟩
    have bare := h.isBare filled noExtension
    refine ⟨fun hsuffix => noExtension (Text.suffix_of_not_mem (by decide) hsuffix), fun hsuffix => ?_, ?_⟩
    · refine not_suffix_of_getLast? (List.cons_ne_nil '/' []) ?_ hsuffix
      rw [getLast?_browsable filled]
      exact h.last
    · refine url?_browsable bare ?_
      rw [dropUser?_bind_eq_none h hidden, readHostPath_bare h bare]
      rfl

/-- An address is normal just if its path is not empty and does not end with the extension, and its host shows no user. -/
theorem isNormal_iff_of_url? (h : url? repository = some url) : ∃ host path, url = browsable host path ∧ '/' ∉ host ∧
    (IsNormal url ↔ path ≠ [] ∧ ¬extension <:+ path ∧ ¬ShowsUser host) := by
  obtain ⟨host, path, hosted, rfl⟩ := exists_isHosted h
  exact ⟨host, path, rfl, fun hslash => (hosted.apart '/' hslash).1 rfl, isNormal_browsable_iff hosted⟩

theorem isNormal_iff_of_url?_sample :
    url? (ofString "ssh://git@example.com:22/owner/repo.git/") = some (ofString "https://example.com/owner/repo") ∧
    ∃ host path, ofString "https://example.com/owner/repo" = browsable host path ∧ '/' ∉ host ∧
      (IsNormal (ofString "https://example.com/owner/repo") ↔ path ≠ [] ∧ ¬extension <:+ path ∧ ¬ShowsUser host) :=
  have read : url? (ofString "ssh://git@example.com:22/owner/repo.git/") = some (ofString "https://example.com/owner/repo") := by
    decide +kernel
  ⟨read, isNormal_iff_of_url? read⟩

/-- An owner and a name keep the extension of the name. The address that they have is read as another one, without it. -/
theorem url?_keeps_extension :
    url? (ofString "owner/repo.git") = some (ofString "https://github.com/owner/repo.git") ∧
      extension <:+ ofString "https://github.com/owner/repo.git" ∧
      url? (ofString "https://github.com/owner/repo.git") = some (ofString "https://github.com/owner/repo") := by
  decide +kernel

end Hosting

end Changelog
