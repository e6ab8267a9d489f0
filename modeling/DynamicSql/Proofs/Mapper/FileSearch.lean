import Mathlib
import DynamicSql.Proofs.Mapper.NamePattern
import DynamicSql.Proofs.Mapper.PathComponents
import DynamicSql.Proofs.Text.Blank

/-!
Which files are found at a location with wildcards: the plain ones at any depth below the directory
in front of the first wildcard whose names follow the pattern, in the order of their paths and each
of them once (`discoverIn_of_wildcard`). Directories may list their entries in any order
(`Reordered`).
-/

namespace DynamicSql

namespace File

/-- Where a plain file lies below another one. Nothing lies behind a link. -/
inductive HasPlain : File → List String → Prop
  | here {bytes : ByteArray} : HasPlain (.plain bytes) []
  | inside {entries : List (String × File)} {name : String} {f : File} {names : List String}
    (hmem : (name, f) ∈ entries) (h : HasPlain f names) :
    HasPlain (.directory entries) (name :: names)

structure IsFileName (name : String) : Prop extends Location.IsPart name where
  ne_parent : name ≠ ".."

/-- The entries of every directory have proper names that differ. -/
inductive IsNamed : File → Prop
  | plain {bytes : ByteArray} : IsNamed (.plain bytes)
  | link {target : String} : IsNamed (.link target)
  | directory {entries : List (String × File)} (hnodup : (entries.map Prod.fst).Nodup)
    (hnames : ∀ e ∈ entries, IsFileName e.1) (h : ∀ e ∈ entries, e.2.IsNamed) :
    IsNamed (.directory entries)

/-- The directories list the same entries, in another order perhaps. -/
inductive Reordered : File → File → Prop
  | refl (f : File) : Reordered f f
  | trans {f g h : File} (hfg : Reordered f g) (hgh : Reordered g h) : Reordered f h
  | perm {entries entries' : List (String × File)} (h : entries.Perm entries') :
    Reordered (.directory entries) (.directory entries')
  | inside {f g : File} (before after : List (String × File)) (name : String)
    (h : Reordered f g) :
    Reordered (.directory (before ++ (name, f) :: after))
      (.directory (before ++ (name, g) :: after))

variable {f g : File} {entries : List (String × File)} {names : List String}

theorem plainFilesIn_eq_flatMap (entries : List (String × File)) :
    plainFilesIn entries = entries.flatMap fun e => e.2.plainFiles.map (e.1 :: ·) := by
  induction entries with
  | nil => rfl
  | cons e entries ih => rw [plainFilesIn, List.flatMap_cons, ih]

mutual

theorem mem_plainFiles (f : File) (names : List String) :
    names ∈ f.plainFiles ↔ f.HasPlain names := by
  cases f with
  | plain bytes =>
    rw [plainFiles, List.mem_singleton]
    constructor
    · rintro rfl
      exact .here
    · intro h
      cases h
      rfl
  | link target =>
    refine ⟨nofun, ?_⟩
    intro h
    cases h
  | directory entries =>
    rw [plainFiles, mem_plainFilesIn]
    constructor
    · rintro ⟨name, f, rest, rfl, hmem, h⟩
      exact .inside hmem h
    · intro h
      cases h with
      | inside hmem h => exact ⟨_, _, _, rfl, hmem, h⟩

theorem mem_plainFilesIn (entries : List (String × File)) (names : List String) :
    names ∈ plainFilesIn entries ↔
      ∃ name f rest, names = name :: rest ∧ (name, f) ∈ entries ∧ f.HasPlain rest := by
  cases entries with
  | nil => simp [plainFilesIn]
  | cons e entries =>
    obtain ⟨name, f⟩ := e
    rw [plainFilesIn, List.mem_append, mem_plainFilesIn entries, List.mem_map]
    simp only [mem_plainFiles f]
    constructor
    · rintro (⟨rest, h, rfl⟩ | ⟨other, g, rest, rfl, hmem, h⟩)
      · exact ⟨name, f, rest, rfl, List.mem_cons_self, h⟩
      · exact ⟨other, g, rest, rfl, List.mem_cons_of_mem _ hmem, h⟩
    · rintro ⟨other, g, rest, rfl, hmem, h⟩
      rcases List.mem_cons.1 hmem with heq | hmem
      · cases heq
        exact .inl ⟨rest, h, rfl⟩
      · exact .inr ⟨other, g, rest, rfl, hmem, h⟩

end

theorem Reordered.plainFiles_perm (h : Reordered f g) : f.plainFiles.Perm g.plainFiles := by
  induction h with
  | refl f => exact .refl _
  | trans _ _ ihfg ihgh => exact ihfg.trans ihgh
  | perm h =>
    rw [plainFiles, plainFiles, plainFilesIn_eq_flatMap, plainFilesIn_eq_flatMap]
    exact h.flatMap_right _
  | inside before after name _ ih =>
    rw [plainFiles, plainFiles, plainFilesIn_eq_flatMap, plainFilesIn_eq_flatMap,
      List.flatMap_append, List.flatMap_append, List.flatMap_cons, List.flatMap_cons]
    exact ((ih.map _).append_right _).append_left _

theorem Reordered.eq_or_directory (h : Reordered f g) :
    f = g ∨ ∃ entries entries', f = .directory entries ∧ g = .directory entries' := by
  induction h with
  | refl f => exact .inl rfl
  | trans _ _ ihfg ihgh =>
    rcases ihfg with rfl | ⟨entries, _, rfl, rfl⟩
    · exact ihgh
    · rcases ihgh with rfl | ⟨_, entries', _, rfl⟩
      · exact .inr ⟨entries, _, rfl, rfl⟩
      · exact .inr ⟨entries, entries', rfl, rfl⟩
  | perm _ => exact .inr ⟨_, _, rfl, rfl⟩
  | inside => exact .inr ⟨_, _, rfl, rfl⟩

theorem HasPlain.isPart (h : f.HasPlain names) (hnamed : f.IsNamed) :
    ∀ name ∈ names, Location.IsPart name := by
  induction h with
  | here => exact nofun
  | inside hmem _ ih =>
    cases hnamed with
    | directory _ hnames hfiles =>
      exact List.forall_mem_cons.2 ⟨(hnames _ hmem).toIsPart, ih (hfiles _ hmem)⟩

mutual

theorem nodup_plainFiles (f : File) (h : f.IsNamed) : f.plainFiles.Nodup := by
  cases f with
  | plain bytes => exact List.nodup_singleton _
  | link target => exact List.nodup_nil
  | directory entries =>
    cases h with
    | directory hnodup _ hfiles => exact nodup_plainFilesIn entries hnodup hfiles

theorem nodup_plainFilesIn (entries : List (String × File))
    (hnodup : (entries.map Prod.fst).Nodup) (h : ∀ e ∈ entries, e.2.IsNamed) :
    (plainFilesIn entries).Nodup := by
  cases entries with
  | nil => exact List.nodup_nil
  | cons e entries =>
    obtain ⟨name, f⟩ := e
    obtain ⟨hf, hentries⟩ := List.forall_mem_cons.1 h
    obtain ⟨hnew, hnodup⟩ := List.nodup_cons.1 hnodup
    refine List.nodup_append.2 ⟨?_, nodup_plainFilesIn entries hnodup hentries, ?_⟩
    · exact (nodup_plainFiles f hf).map List.cons_injective
    · rintro a ha b hb rfl
      obtain ⟨rest, -, rfl⟩ := List.mem_map.1 ha
      obtain ⟨_, g, _, heq, hmem, -⟩ := (mem_plainFilesIn entries _).1 hb
      cases heq
      exact hnew (List.mem_map.2 ⟨_, hmem, rfl⟩)

end

end File

namespace Location

/-! Order -/

variable {names names' : List String} {f g : File} {pattern : String}

theorem pathLe_iff : pathLe names names' = true ↔ names = names' ∨ names < names' := by
  fun_induction pathLe names names' with
  | case1 names => cases names <;> simp
  | case2 => simp
  | case3 a as bs ih => simp [ih]
  | case4 a as b bs hne => simp [hne, List.cons_lt_cons_iff]

theorem pathLe_trans (a b c : List String) (hab : pathLe a b = true) (hbc : pathLe b c = true) :
    pathLe a c = true := by
  rw [pathLe_iff] at hab hbc ⊢
  rcases hab with rfl | hab
  · exact hbc
  · rcases hbc with rfl | hbc
    · exact .inr hab
    · exact .inr (List.lt_trans hab hbc)

theorem pathLe_total (a b : List String) : (pathLe a b || pathLe b a) = true := by
  rw [Bool.or_eq_true, pathLe_iff, pathLe_iff]
  by_cases hab : a < b
  · exact .inl (.inr hab)
  · by_cases hba : b < a
    · exact .inr (.inr hba)
    · exact .inl (.inl (List.le_antisymm (List.not_lt.1 hba) (List.not_lt.1 hab)))

theorem pathLe_antisymm (a b : List String) (hab : pathLe a b = true) (hba : pathLe b a = true) :
    a = b := by
  rw [pathLe_iff] at hab hba
  rcases hab with heq | hab
  · exact heq
  · rcases hba with heq | hba
    · exact heq.symm
    · exact absurd (List.lt_trans hab hba) (List.lt_irrefl a)

/-! Search -/

/-- The same answer, but for the order that directories list their entries in. -/
inductive SameAnswer : Except ReadError File → Except ReadError File → Prop
  | ok {f g : File} (h : f.Reordered g) : SameAnswer (.ok f) (.ok g)
  | error (e : ReadError) : SameAnswer (.error e) (.error e)

/-- Whether the last of the names is one that is looked for. -/
def fits (pattern : String) (names : List String) : Bool :=
  names.getLast?.any fun name => matchesPattern pattern.toList name.toList

theorem fits_iff :
    fits pattern names = true ↔
      ∃ dirs name, names = dirs ++ [name] ∧ Follows pattern.toList name.toList := by
  rw [fits, Option.any_eq_true]
  simp only [matchesPattern_eq_true_iff, List.getLast?_eq_some_iff]
  constructor
  · rintro ⟨name, ⟨dirs, rfl⟩, h⟩
    exact ⟨dirs, name, rfl, h⟩
  · rintro ⟨dirs, name, rfl, h⟩
    exact ⟨name, ⟨dirs, rfl⟩, h⟩

/-- What is found below a directory, in order. -/
def foundIn (entries : List (String × File)) (pattern : String) : List (List String) :=
  ((File.plainFilesIn entries).filter (fits pattern)).mergeSort pathLe

variable {fs fs' : FileSystem} {base : List String} {entries : List (String × File)}

theorem search_of_directory (h : fs (joined base) = .ok (.directory entries)) :
    search fs base pattern = (foundIn entries pattern).map fun names => joined (base ++ names) := by
  rw [search, h]
  rfl

theorem search_of_not_directory (h : ∀ entries, fs (joined base) ≠ .ok (.directory entries)) :
    search fs base pattern = [] := by
  unfold search
  split
  · next entries heq => exact absurd heq (h entries)
  · rfl

theorem mem_foundIn :
    names ∈ foundIn entries pattern ↔
      (File.directory entries).HasPlain names ∧ fits pattern names = true := by
  rw [foundIn, List.mem_mergeSort, List.mem_filter, ← File.mem_plainFiles, File.plainFiles]

theorem pairwise_foundIn (h : (File.directory entries).IsNamed) :
    (foundIn entries pattern).Pairwise (· < ·) := by
  have hsorted : (foundIn entries pattern).Pairwise fun a b => pathLe a b = true :=
    List.pairwise_mergeSort pathLe_trans pathLe_total _
  have hnodup : (foundIn entries pattern).Nodup :=
    (List.mergeSort_perm _ _).nodup_iff.2 ((File.nodup_plainFiles _ h).filter _)
  refine hsorted.imp₂ ?_ hnodup
  intro a b hle hne
  exact (pathLe_iff.1 hle).resolve_left hne

theorem foundIn_of_perm {entries' : List (String × File)}
    (h : (File.plainFilesIn entries).Perm (File.plainFilesIn entries')) :
    foundIn entries pattern = foundIn entries' pattern := by
  refine List.Perm.eq_of_pairwise (fun a b _ _ => pathLe_antisymm a b)
    (List.pairwise_mergeSort pathLe_trans pathLe_total _)
    (List.pairwise_mergeSort pathLe_trans pathLe_total _) ?_
  exact ((List.mergeSort_perm _ _).trans (h.filter _)).trans (List.mergeSort_perm _ _).symm

theorem mem_search (h : fs (joined base) = .ok (.directory entries)) (path : String) :
    path ∈ search fs base pattern ↔
      ∃ dirs name, (File.directory entries).HasPlain (dirs ++ [name]) ∧
        Follows pattern.toList name.toList ∧ path = joined (base ++ (dirs ++ [name])) := by
  rw [search_of_directory h, List.mem_map]
  simp only [mem_foundIn, fits_iff]
  constructor
  · rintro ⟨_, ⟨hplain, dirs, name, rfl, hname⟩, rfl⟩
    exact ⟨dirs, name, hplain, hname, rfl⟩
  · rintro ⟨dirs, name, hplain, hname, rfl⟩
    exact ⟨_, ⟨hplain, dirs, name, rfl, hname⟩, rfl⟩

theorem pairwise_search (h : fs (joined base) = .ok (.directory entries))
    (hbase : AreComponents base) (hnamed : (File.directory entries).IsNamed) :
    (search fs base pattern).Pairwise fun a b => components a < components b := by
  rw [search_of_directory h, List.pairwise_map]
  refine (pairwise_foundIn hnamed).imp_of_mem ?_
  intro a b ha hb hlt
  have hcomponents (names : List String) (hnames : names ∈ foundIn entries pattern) :
      components (joined (base ++ names)) = base ++ names :=
    components_joined (hbase.append ((mem_foundIn.1 hnames).1.isPart hnamed))
  rw [hcomponents a ha, hcomponents b hb]
  exact List.append_left_lt hlt

theorem search_of_sameAnswer (h : SameAnswer (fs (joined base)) (fs' (joined base))) :
    search fs' base pattern = search fs base pattern := by
  generalize hfs : fs (joined base) = answer at h
  generalize hfs' : fs' (joined base) = answer' at h
  cases h with
  | error e => rw [search, search, hfs, hfs']
  | ok h =>
    have hperm := h.plainFiles_perm
    rcases h.eq_or_directory with rfl | ⟨entries, entries', rfl, rfl⟩
    · rw [search, search, hfs, hfs']
    · rw [File.plainFiles, File.plainFiles] at hperm
      rw [search_of_directory hfs, search_of_directory hfs', foundIn_of_perm hperm]

/-! Wildcards -/

theorem hasWildcard_iff {s : String} :
    hasWildcard s = true ↔ ∃ c ∈ s.toList, c = '*' ∨ c = '?' := by
  simp [hasWildcard]

theorem isWild_eq (c : String) : isWild c = hasWildcard c := by
  cases h : hasWildcard c with
  | false => simp [isWild, h]
  | true =>
    have hname : isName c = true := by
      by_contra hname
      simp only [isName, Bool.and_eq_true, bne_iff_ne, not_and_or, not_not] at hname
      rcases hname with (rfl | rfl) | rfl <;> revert h <;> decide
    simp [isWild, h, hname]

theorem hasWildcard_trim {s : String} (h : hasWildcard s = true) :
    hasWildcard (Text.trim s) = true := by
  obtain ⟨c, hc, hwild⟩ := hasWildcard_iff.1 h
  have hblank : Text.isBlankChar c = false := by
    rcases hwild with rfl | rfl <;> decide
  refine hasWildcard_iff.2 ⟨c, ?_, hwild⟩
  rw [Text.trim, String.toList_ofList]
  exact Text.mem_trimChars hblank hc

theorem exists_wild_component {path : String} (h : hasWildcard path = true) :
    ∃ c ∈ components path, hasWildcard c = true := by
  obtain ⟨c, hc, hwild⟩ := hasWildcard_iff.1 h
  have hslash : c ≠ '/' := by
    rcases hwild with rfl | rfl <;> decide
  obtain ⟨w, hw, hcw⟩ := exists_mem_splitSlashes hc hslash
  have hpart : hasWildcard (String.ofList w) = true :=
    hasWildcard_iff.2 ⟨c, by rwa [String.toList_ofList], hwild⟩
  refine ⟨String.ofList w, ?_, hpart⟩
  have hkept : String.ofList w ∈ (pathParts path).filter fun p => p ≠ "" ∧ p ≠ "." := by
    refine List.mem_filter.2 ⟨List.mem_map_of_mem hw, decide_eq_true ?_⟩
    constructor <;> (intro heq; rw [heq] at hpart; revert hpart; decide)
  unfold components
  dsimp only
  split
  · exact List.mem_cons_of_mem _ hkept
  · exact List.mem_cons_of_mem _ hkept
  · exact hkept

/-- What is searched and what for: the directory before the first component with a wildcard, or a
point in its stead, and the last component that is a name. -/
structure IsSplit (path : String) (base : List String) (pattern : String) : Prop where
  first : ∃ front wild behind, components path = front ++ wild :: behind ∧
    (∀ c ∈ front, hasWildcard c = false) ∧ hasWildcard wild = true ∧
      base = if front = [] then ["."] else front
  last : ((components path).filter isName).getLast? = some pattern

theorem isName_of_hasWildcard {c : String} (h : hasWildcard c = true) : isName c = true := by
  have hc := isWild_eq c
  rwa [h, isWild, h, Bool.and_true] at hc

theorem exists_isSplit {path : String} (h : hasWildcard path = true) :
    ∃ base pattern, IsSplit path base pattern := by
  obtain ⟨c, hc, hwild⟩ := exists_wild_component h
  have hsplit := List.takeWhile_append_dropWhile (p := (!hasWildcard ·)) (l := components path)
  have hhead := List.head?_dropWhile_not (!hasWildcard ·) (components path)
  have hname : c ∈ (components path).filter isName :=
    List.mem_filter.2 ⟨hc, isName_of_hasWildcard hwild⟩
  cases hbehind : (components path).dropWhile (!hasWildcard ·) with
  | nil =>
    have hnone := List.dropWhile_eq_nil_iff.1 hbehind c hc
    rw [hwild] at hnone
    cases hnone
  | cons wild behind =>
    rw [hbehind] at hsplit hhead
    refine ⟨_, _, ⟨_, wild, behind, hsplit.symm, ?_, by simpa using hhead, rfl⟩,
      List.getLast?_eq_some_getLast (List.ne_nil_of_mem hname)⟩
    intro d hd
    simpa using List.mem_takeWhile_imp hd

theorem IsSplit.areComponents {path : String} (h : IsSplit path base pattern) :
    AreComponents base := by
  obtain ⟨front, wild, behind, hcomponents, -, -, rfl⟩ := h.first
  have hpath := areComponents_components path
  rw [hcomponents] at hpath
  split
  · exact ⟨.inr (.inl rfl), nofun⟩
  · exact hpath.of_append

theorem IsSplit.split_eq {path : String} (h : IsSplit path base pattern) :
    searchBase (split path).1 = base ∧ (split path).2 = pattern := by
  obtain ⟨front, wild, behind, hcomponents, hfront, hwild, rfl⟩ := h.first
  have hlast := h.last
  have hpos : ∀ c ∈ front, (!isWild c) = true := fun c hc => by rw [isWild_eq, hfront c hc]; rfl
  have hneg : (!isWild wild) = false := by rw [isWild_eq, hwild]; rfl
  have htake : (front ++ wild :: behind).takeWhile (!isWild ·) = front := by
    rw [List.takeWhile_append_of_pos hpos, List.takeWhile_cons, hneg]
    exact List.append_nil front
  have hdrop : (front ++ wild :: behind).dropWhile (!isWild ·) = wild :: behind := by
    rw [List.dropWhile_append_of_pos hpos, List.dropWhile_cons, hneg]
    rfl
  rw [split, hcomponents]
  dsimp only
  rw [htake, hdrop]
  refine ⟨rfl, ?_⟩
  -- the first component with a wildcard is a name, so the last name does not come before it
  rw [hcomponents, List.filter_append, List.getLast?_append,
    List.filter_cons_of_pos (isName_of_hasWildcard hwild), List.getLast?_cons] at hlast
  rw [List.filter_cons_of_pos (isName_of_hasWildcard hwild), List.getLast?_cons]
  exact Option.some.inj hlast

theorem discoverIn_eq {location : String} (h : hasWildcard location = true)
    (hsplit : IsSplit (Text.trim location) base pattern) :
    discoverIn fs location = search fs base pattern := by
  have hwild := hasWildcard_trim h
  have hne : Text.trim location ≠ "" := by
    intro hempty
    rw [hempty] at hwild
    revert hwild
    decide
  obtain ⟨hbase, hpattern⟩ := hsplit.split_eq
  simp only [discoverIn, hne, if_false, hwild, if_true, hbase, hpattern]

/-- At a location with wildcards exactly the plain files are found that lie below the directory in
front of the first wildcard, at any depth, and whose names follow the last name of the location. Each
of them is there once, and they are sorted by the components of their paths. Nothing is found if
there is no such directory, and the order that directories list their entries in makes no
difference. Blanks around the location are no part of it. -/
theorem discoverIn_of_wildcard (fs : FileSystem) {location : String}
    (h : hasWildcard location = true) :
    (∃ base pattern, IsSplit (Text.trim location) base pattern) ∧
    ∀ base pattern, IsSplit (Text.trim location) base pattern →
      (∀ entries, fs (joined base) = .ok (.directory entries) →
        (∀ path, path ∈ discoverIn fs location ↔
          ∃ dirs name, (File.directory entries).HasPlain (dirs ++ [name]) ∧
            Follows pattern.toList name.toList ∧ path = joined (base ++ (dirs ++ [name]))) ∧
        ((File.directory entries).IsNamed →
          (discoverIn fs location).Pairwise fun a b => components a < components b)) ∧
      ((∀ entries, fs (joined base) ≠ .ok (.directory entries)) → discoverIn fs location = []) ∧
      ∀ fs', SameAnswer (fs (joined base)) (fs' (joined base)) →
        discoverIn fs' location = discoverIn fs location := by
  refine ⟨exists_isSplit (hasWildcard_trim h), ?_⟩
  intro base pattern hsplit
  simp only [discoverIn_eq h hsplit]
  refine ⟨?_, search_of_not_directory, fun fs' => search_of_sameAnswer⟩
  intro entries hentries
  exact ⟨mem_search hentries, pairwise_search hentries hsplit.areComponents⟩

/-- A directory with a file and another directory, listed in both orders, and an empty tree. -/
theorem discoverIn_of_wildcard_nested :
    let z : String × File := ("z.xml", .plain .empty)
    let b : String × File := ("b", .directory [("c.xml", .plain .empty)])
    let fs (entries : List (String × File)) := FileTree.lookup [("m", .directory entries)]
    let location := " m//*/*.xml"
    hasWildcard location = true ∧ IsSplit (Text.trim location) ["m"] "*.xml" ∧
      (File.directory [z, b]).IsNamed ∧ "m/b/c.xml" ∈ discoverIn (fs [z, b]) location ∧
      ((discoverIn (fs [z, b]) location).Pairwise fun a b => components a < components b) ∧
      discoverIn (fs [b, z]) location = discoverIn (fs [z, b]) location ∧
      discoverIn (FileTree.lookup []) location = [] := by
  intro z b fs location
  have hwild : hasWildcard location = true := by decide
  have hsplit : IsSplit (Text.trim location) ["m"] "*.xml" :=
    ⟨⟨["m"], "*", ["*.xml"], by cbv, by decide, by decide, by decide⟩, by cbv⟩
  have hlookup (entries : List (String × File)) :
      fs entries (joined ["m"]) = .ok (.directory entries) := by
    change FileTree.lookup _ _ = _
    cbv
  have hnone : FileTree.lookup [] (joined ["m"]) = .error .notFound := by cbv
  have hproper : ∀ name ∈ ["z.xml", "b", "c.xml"], File.IsFileName name := by
    intro name hname
    have h : ∀ name ∈ ["z.xml", "b", "c.xml"],
        name ≠ "" ∧ name ≠ "." ∧ '/' ∉ name.toList ∧ name ≠ ".." := by
      decide
    obtain ⟨hempty, hpoint, hslash, hparent⟩ := h name hname
    exact ⟨⟨hempty, hpoint, hslash⟩, hparent⟩
  have hnamed : (File.directory [z, b]).IsNamed := by
    have hb : b.2.IsNamed := by
      refine .directory (by decide) ?_ (List.forall_mem_singleton.2 .plain)
      exact List.forall_mem_singleton.2 (hproper _ (by decide))
    refine .directory (by decide) ?_ ?_
    · exact List.forall_mem_cons.2 ⟨hproper _ (by decide),
        List.forall_mem_singleton.2 (hproper _ (by decide))⟩
    · exact List.forall_mem_cons.2 ⟨.plain, List.forall_mem_singleton.2 hb⟩
  obtain ⟨hfound, _, horder⟩ := (discoverIn_of_wildcard (fs [z, b]) hwild).2 _ _ hsplit
  obtain ⟨hmem, hsorted⟩ := hfound _ (hlookup _)
  obtain ⟨_, hempty, _⟩ := (discoverIn_of_wildcard (FileTree.lookup []) hwild).2 _ _ hsplit
  refine ⟨hwild, hsplit, hnamed, (hmem _).2 ⟨["b"], "c.xml", ?_, ?_, by decide⟩, hsorted hnamed,
    horder (fs [b, z]) ?_, hempty ?_⟩
  · exact .inside (.tail _ (.head _)) (.inside (.head _) .here)
  · exact matchesPattern_eq_true_iff.1 (by decide)
  · rw [hlookup, hlookup]
    exact .ok (.perm (.swap b z []))
  · intro entries h
    rw [hnone] at h
    cases h

end Location

end DynamicSql
