import CppScaffold.Proofs.TrailingReading

/-!
# Bare names of qualified names

The bare name is the identifier of the last part (`strip_qualified`), unless template arguments have a parenthesis or
the word `operator` stands somewhere.
-/

namespace CppScaffold.SymbolName

open Text List Recognizer Trailing

/-- A text whose angle brackets are balanced. -/
inductive Balanced : Text → Prop where
  | nil : Balanced []
  | plain {c : Char} {t : Text} (hc : c ≠ '<' ∧ c ≠ '>') (h : Balanced t) : Balanced (c :: t)
  | group {inner rest : Text} (hinner : Balanced inner) (hrest : Balanced rest) :
      Balanced ('<' :: (inner ++ '>' :: rest))

lemma Balanced.append {t rest : Text} (h : t.all fun c => c != '<' && c != '>') (hrest : Balanced rest) :
    Balanced (t ++ rest) := by
  induction t with
  | nil => exact hrest
  | cons c t ih =>
    simp only [all_cons, Bool.and_eq_true, bne_iff_ne] at h
    exact .plain h.1 (ih h.2)

def operatorWord : Text := "operator"

structure NamePart where
  name : Text
  arguments : Option Text
  ne_nil : name ≠ []
  isWordChar : ∀ c ∈ name, Text.isWordChar c
  ne_operator : name ≠ operatorWord
  balanced : ∀ a ∈ arguments, Balanced a

def NamePart.written (p : NamePart) : Text :=
  p.name ++ match p.arguments with
    | none => []
    | some a => '<' :: (a ++ ['>'])

def qualified (scopes : List NamePart) (name : Text) : Text := scopes.flatMap (·.written ++ [':', ':']) ++ name

/-! ## Template arguments -/

/-- Going back through balanced arguments leaves the depth as it is. -/
lemma dropArguments_append {a : Text} (h : Balanced a) {depth : Int} (hdepth : 0 < depth) (r : Text) :
    dropArguments depth (a.reverse ++ r) = dropArguments depth r := by
  induction h generalizing depth r with
  | nil => rfl
  | @plain c t hc h ih =>
    rw [reverse_cons, append_assoc, ih hdepth]
    simp [dropArguments, hc]
  | @group inner rest hinner hrest ihinner ihrest =>
    have hopen : depth + 1 ≠ 1 := by omega
    rw [reverse_cons, reverse_append, reverse_cons, append_assoc, append_assoc, append_assoc, ihrest hdepth]
    simp [dropArguments, ihinner (show 0 < depth + 1 by omega), hopen]

lemma withoutArguments_append {a : Text} (h : Balanced a) (x : Text) :
    withoutArguments (x ++ '<' :: (a ++ ['>'])) = trimEnd x := by
  have hreverse : (x ++ '<' :: (a ++ ['>'])).reverse = '>' :: (a.reverse ++ '<' :: x.reverse) := by simp
  simp [withoutArguments, hreverse, dropArguments, dropArguments_append h Int.one_pos]

/-! ## Scopes -/

/-- What stands behind the last pair of colons. -/
def afterScopes (name : Text) : Text :=
  match findLast? [':', ':'] name with
  | some i => name.drop (i + 2)
  | none => name

variable {n : Text}

lemma afterScopes_append (hn : ':' ∉ n) (x : Text) : afterScopes (x ++ ':' :: ':' :: n) = n := by
  have hfind : findLast? [':', ':'] (x ++ ':' :: ':' :: n) = some x.length := by
    refine (findLast?_eq_some_iff (by simp)).mpr ⟨by simp, fun j hj hwritten => hn ?_⟩
    obtain ⟨k, rfl⟩ := Nat.exists_eq_add_of_lt hj
    rw [Nat.add_assoc, drop_length_add_append] at hwritten
    cases k with
    | zero =>
      obtain ⟨r, hr⟩ := hwritten
      obtain ⟨-, rfl⟩ := cons_eq_cons.mp hr
      exact mem_cons_self
    | succ k => exact mem_of_mem_drop (hwritten.subset mem_cons_self)
  simp [afterScopes, hfind]

lemma afterScopes_of_notMem (hn : ':' ∉ n) : afterScopes n = n := by
  cases hfind : findLast? [':', ':'] n with
  | none => simp [afterScopes, hfind]
  | some i =>
    have hwritten := ((findLast?_eq_some_iff (by simp)).mp hfind).1
    exact absurd (mem_of_mem_drop (hwritten.subset mem_cons_self)) hn

lemma afterScopes_qualified (scopes : List NamePart) (hn : ':' ∉ n) : afterScopes (qualified scopes n) = n := by
  cases scopes using reverseRecOn with
  | nil => exact afterScopes_of_notMem hn
  | append_singleton scopes p =>
    have happend := afterScopes_append hn (scopes.flatMap (·.written ++ [':', ':']) ++ p.written)
    simpa [qualified] using happend

/-! ## The word for operators -/

/-- The word for operators does not occur in the text. -/
def NoOperator (t : Text) : Prop := ∀ a b, ¬ Occurs operatorWord a b t

lemma isWordChar_operatorWord : ∀ c ∈ operatorWord, isWordChar c := by
  have hall : operatorWord.all isWordChar := by decide
  exact all_eq_true.mp hall

lemma NoOperator.append {x y : Text} (hx : NoOperator x) (hy : NoOperator y)
    (hcut : isWord x.getLast? = false ∨ isWord y.head? = false) : NoOperator (x ++ y) := by
  intro a b h
  rcases h.cases isWordChar_operatorWord hcut with ⟨_, -, h⟩ | ⟨_, -, h⟩
  · exact hx _ _ h
  · exact hy _ _ h

lemma noOperator_of_notMem {t : Text} (h : 'o' ∉ t) : NoOperator t := by
  rintro a b ⟨rfl, -, -⟩
  exact h (mem_append_right a (mem_append_left b (by decide)))

lemma NamePart.noOperator_name (p : NamePart) : NoOperator p.name := by
  rintro a b ⟨heq, hbefore, hafter⟩
  have hword := heq ▸ p.isWordChar
  obtain rfl : a = [] := by
    cases a using reverseRecOn with
    | nil => rfl
    | append_singleton a c => simp [isWord, hword c (by simp)] at hbefore
  cases b with
  | nil => exact p.ne_operator (by simpa using heq)
  | cons c b => simp [isWord, hword c (by simp)] at hafter

lemma search?_operatorName {t : Text} (h : NoOperator t) : search? operatorName t = none := by
  rw [search?_eq_none_iff]
  intro k hk
  have hnone : word "operator" (before none t k) (t.drop k) = none := by
    refine Option.eq_none_iff_forall_ne_some.mpr fun m hm => ?_
    obtain ⟨-, a, b, -, hoccurs⟩ := (word_at_eq_some_iff isWordChar_operatorWord (by decide) hk).mp hm
    exact h a b hoccurs
  rw [operatorName, hnone]

/-! ## Qualified names -/

variable (scopes : List NamePart) (last : NamePart)

lemma NamePart.noOperator_written {p : NamePart} (h : ∀ a ∈ p.arguments, NoOperator a) : NoOperator p.written := by
  rw [written]
  cases harguments : p.arguments with
  | none => simpa using p.noOperator_name
  | some a =>
    have hgroup : NoOperator (['<'] ++ (a ++ ['>'])) := by
      refine .append (noOperator_of_notMem (by simp)) ?_ (.inl rfl)
      exact .append (h a harguments) (noOperator_of_notMem (by simp)) (.inr rfl)
    exact p.noOperator_name.append hgroup (.inr rfl)

lemma qualified_cons (p : NamePart) (n : Text) :
    qualified (p :: scopes) n = p.written ++ ([':', ':'] ++ qualified scopes n) := by
  simp [qualified]

lemma noOperator_qualified (h : ∀ p ∈ scopes ++ [last], ∀ a ∈ p.arguments, NoOperator a) :
    NoOperator (qualified scopes last.written) := by
  induction scopes with
  | nil => exact NamePart.noOperator_written (h last (by simp))
  | cons p scopes ih =>
    rw [qualified_cons]
    refine (NamePart.noOperator_written (h p (by simp))).append ?_ (.inr rfl)
    exact (noOperator_of_notMem (by simp)).append (ih fun q hq => h q (by simp_all)) (.inl rfl)

lemma notMem_qualified (h : ∀ p ∈ scopes ++ [last], ∀ a ∈ p.arguments, '(' ∉ a) :
    '(' ∉ qualified scopes last.written := by
  have hpart : ∀ p ∈ scopes ++ [last], '(' ∉ p.written := by
    intro p hp hmem
    rcases mem_append.mp hmem with hname | hgroup
    · exact absurd (p.isWordChar _ hname) (by decide)
    · cases harguments : p.arguments with
      | none => simp [harguments] at hgroup
      | some a => exact h p hp a harguments (by simpa [harguments] using hgroup)
  simp only [qualified, mem_append, mem_flatMap, not_or, not_exists, not_and]
  exact ⟨fun p hp => ⟨hpart p (by simp [hp]), by simp⟩, hpart last (by simp)⟩

lemma NamePart.exists_written (p : NamePart) : ∃ c r, p.written = c :: r ∧ isBlank c = false := by
  obtain ⟨c, r, hname⟩ := exists_cons_of_ne_nil p.ne_nil
  exact ⟨c, _, by rw [written, hname]; rfl, isBlank_of_isWordChar (p.isWordChar c (by simp [hname]))⟩

lemma NamePart.last_name (p : NamePart) {c : Char} (h : p.name.getLast? = some c) : isBlank c = false ∧ c ≠ '>' := by
  have hc := p.isWordChar c (mem_of_getLast? h)
  refine ⟨isBlank_of_isWordChar hc, ?_⟩
  rintro rfl
  exact absurd hc (by decide)

lemma trimmed_qualified : Trimmed (qualified scopes last.written) := by
  obtain ⟨c, r, hlast, hc⟩ := last.exists_written
  refine ⟨by simp [qualified, hlast], fun d hd => ?_, fun d hd => ?_⟩
  · cases scopes with
    | nil =>
      obtain rfl : c = d := by simpa [qualified, hlast] using hd
      exact hc
    | cons p scopes =>
      obtain ⟨e, r, hp, he⟩ := p.exists_written
      obtain rfl : e = d := by simpa [qualified_cons, hp] using hd
      exact he
  · rw [qualified, getLast?_append_of_ne_nil _ (by simp [hlast]), NamePart.written] at hd
    cases harguments : last.arguments with
    | none => exact (last.last_name (by simpa [harguments] using hd)).1
    | some a =>
      have hwritten : last.name ++ '<' :: (a ++ ['>']) = last.name ++ '<' :: a ++ ['>'] := by simp
      simp only [harguments, hwritten, getLast?_concat] at hd
      obtain rfl := Option.some.inj hd
      decide

lemma NamePart.trimmed_name (p : NamePart) : Trimmed p.name where
  ne_nil := p.ne_nil
  head c hc := isBlank_of_isWordChar (p.isWordChar c (mem_of_mem_head? hc))
  last c hc := isBlank_of_isWordChar (p.isWordChar c (mem_of_getLast? hc))

/-! ## Stripping -/

def withoutTemplate (name : Text) : Text := if ['>'].isSuffixOf name then withoutArguments name else name

lemma withoutTemplate_qualified : withoutTemplate (qualified scopes last.written) = qualified scopes last.name := by
  cases harguments : last.arguments with
  | none =>
    have hwritten : last.written = last.name := by simp [NamePart.written, harguments]
    have hsuffix : ¬ ['>'] <:+ qualified scopes last.name := by
      rintro ⟨x, hx⟩
      have hlast := congrArg getLast? hx
      rw [getLast?_concat, qualified, getLast?_append_of_ne_nil _ last.ne_nil] at hlast
      exact (last.last_name hlast.symm).2 rfl
    rw [withoutTemplate, hwritten, if_neg (by simpa using hsuffix)]
  | some a =>
    have hwritten : qualified scopes last.written = qualified scopes last.name ++ '<' :: (a ++ ['>']) := by
      simp [qualified, NamePart.written, harguments]
    have hsuffix : ['>'] <:+ qualified scopes last.name ++ '<' :: (a ++ ['>']) :=
      ⟨qualified scopes last.name ++ '<' :: a, by simp⟩
    rw [withoutTemplate, hwritten, if_pos (by simpa using hsuffix),
      withoutArguments_append (last.balanced a harguments)]
    simpa [qualified] using last.trimmed_name.trimEnd_append (scopes.flatMap (·.written ++ [':', ':']))
      (forall_mem_nil _)

lemma NoOperator.of_append_blank {x y : Text} (hy : ∀ c ∈ y, isBlank c) (h : NoOperator (x ++ y)) : NoOperator x := by
  rintro a b ⟨rfl, hbefore, hafter⟩
  refine h a (b ++ y) ⟨by simp, hbefore, ?_⟩
  cases b with
  | cons c b => exact hafter
  | nil =>
    cases y with
    | nil => rfl
    | cons c y => exact isWordChar_of_isBlank (hy c mem_cons_self)

/-- What stands before the first parenthesis. -/
def withoutParameters (name : Text) : Text :=
  match find? ['('] name with
  | some i => trimEnd (name.take i)
  | none => name

lemma strip_eq {reported : Text} (h : NoOperator (trim reported)) :
    strip reported = trim (afterScopes (withoutTemplate (withoutParameters (trim reported)))) := by
  rw [strip, search?_operatorName h]
  rfl

/-- **The bare name of a qualified name is the identifier of its last part**, also with parameters behind it, if no
template arguments have a parenthesis and `operator` does not occur. -/
theorem strip_qualified {tail : Text}
    (hparameters : tail = [] ∨ ∃ gap r, tail = gap ++ '(' :: r ∧ ∀ c ∈ gap, isBlank c)
    (hparentheses : ∀ p ∈ scopes ++ [last], ∀ a ∈ p.arguments, '(' ∉ a)
    (harguments : ∀ p ∈ scopes ++ [last], ∀ a ∈ p.arguments, NoOperator a) (htail : NoOperator tail) :
    strip (qualified scopes last.written ++ tail) = last.name := by
  have hcolon : ':' ∉ last.name := fun h => absurd (last.isWordChar _ h) (by decide)
  have hbare : trim (afterScopes (withoutTemplate (qualified scopes last.written))) = last.name := by
    rw [withoutTemplate_qualified, afterScopes_qualified scopes hcolon]
    simpa using last.trimmed_name.trim_append (l := []) (r := []) (by simp) (by simp)
  have hcore := trimmed_qualified scopes last
  have hnotMem := notMem_qualified scopes last hparentheses
  have hoperator := noOperator_qualified scopes last harguments
  rw [← hbare]
  generalize qualified scopes last.written = core at *
  rcases hparameters with rfl | ⟨gap, r, rfl, hgap⟩
  · have htrim : trim (core ++ []) = core := hcore.trim_append (forall_mem_nil _) (forall_mem_nil _)
    rw [strip_eq (by rwa [htrim]), htrim, withoutParameters, find?_singleton_eq_none_iff.mpr hnotMem]
  · obtain ⟨t, b, rfl, hb, ht⟩ := exists_core_cons (c := '(') (by decide) r
    have hwhole : Trimmed (core ++ (gap ++ '(' :: t)) := by
      refine ⟨by simp, fun c hc => hcore.head c ?_, fun c hc => ht.last c ?_⟩
      · rwa [head?_append_of_ne_nil _ hcore.ne_nil] at hc
      · rwa [getLast?_append_of_ne_nil _ (by simp), getLast?_append_of_ne_nil _ (by simp)] at hc
    have htrim : trim (core ++ (gap ++ '(' :: (t ++ b))) = core ++ (gap ++ '(' :: t) := by
      simpa using hwhole.trim_append (l := []) (by simp) hb
    have hinner : NoOperator (gap ++ '(' :: t) := .of_append_blank hb (by simpa using htail)
    have hcut : isWord (gap ++ '(' :: t).head? = false := by
      cases gap with
      | nil => rfl
      | cons c gap => exact isWordChar_of_isBlank (hgap c mem_cons_self)
    have hfind : find? ['('] (core ++ (gap ++ '(' :: t)) = some (core ++ gap).length := by
      refine find?_singleton_eq_some_iff.mpr ⟨core ++ gap, t, by simp, rfl, ?_⟩
      rw [mem_append, not_or]
      exact ⟨hnotMem, fun h => absurd (hgap _ h) (by decide)⟩
    have hcoreOnly : withoutParameters (core ++ (gap ++ '(' :: t)) = core := by
      have htake : (core ++ (gap ++ '(' :: t)).take (core ++ gap).length = core ++ gap := by
        rw [← append_assoc, take_left]
      simp only [withoutParameters, hfind, htake]
      exact hcore.trimEnd_append [] hgap
    rw [strip_eq (by rw [htrim]; exact hoperator.append hinner (.inr hcut)), htrim, hcoreOnly]

/-- The part `grid<std::array<int, 3>, 2>` of a name. -/
def gridPart : NamePart where
  name := "grid"
  arguments := some ("std::array" ++ '<' :: ("int, 3" ++ '>' :: ", 2"))
  ne_nil := by decide
  isWordChar := all_eq_true.mp (by decide)
  ne_operator := by decide
  balanced := by
    rintro _ ⟨⟩
    have hplain {t : Text} (h : t.all fun c => c != '<' && c != '>') : Balanced t := by
      simpa using Balanced.append h .nil
    exact .append (by decide) (.group (hplain (by decide)) (hplain (by decide)))

def sizePart : NamePart where
  name := "size"
  arguments := none
  ne_nil := by decide
  isWordChar := all_eq_true.mp (by decide)
  ne_operator := by decide
  balanced := by simp

theorem strip_behind_nested_arguments :
    strip (qualified [gridPart] sizePart.written ++ " (int) &&") = "size" := by
  have hmem (c : Char) (hc : c ∉ gridPart.arguments.getD []) :
      ∀ p ∈ [gridPart] ++ [sizePart], ∀ a ∈ p.arguments, c ∉ a := by
    refine forall_mem_cons.mpr ⟨?_, forall_mem_singleton.mpr (by rintro _ ⟨⟩)⟩
    rintro _ ⟨⟩
    exact hc
  refine strip_qualified [gridPart] sizePart (.inr ⟨[' '], "int) &&", rfl, forall_mem_singleton.mpr rfl⟩)
    (hmem '(' (by decide)) ?_ ?_
  · exact fun p hp a ha => noOperator_of_notMem (hmem 'o' (by decide) p hp a ha)
  · exact noOperator_of_notMem (by decide)

/-- A parenthesis in template arguments is taken for the start of the parameters. -/
theorem strip_cuts_in_arguments : strip "Foo<void(int)>::bar" = "Foo<void" := by decide +kernel

end CppScaffold.SymbolName
