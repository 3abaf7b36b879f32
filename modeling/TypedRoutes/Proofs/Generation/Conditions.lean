import TypedRoutes.Proofs.Generation.Layers

/-!
# Conditions on generated code

Checks, validators and serializers meet every condition that is met by what they are given, by the
closures they build and by the names they use: by induction on the type, under the closures that
stand around the place that generation has come to.
-/

namespace TypedRoutes.Scope

open Generate Condition

variable {scope : Scope} {factory : Expr} {c : Condition factory} {base : Nat}

/-- What is called, or stands in its place, meets the condition if its arguments do. -/
theorem callHelper_meets (hc : c.Serves base) (kind : HelperKind) (name : String)
    {outer : List (List String)} {arguments : List Expr} {otherwise : Expr}
    (h : ∀ argument ∈ arguments, (c.under outer).Everywhere argument)
    (ho : (c.under outer).Everywhere otherwise) :
    Ensures (fun result => (c.under outer).Everywhere (result.getD otherwise))
      (scope.callHelper kind name arguments) := by
  rw [callHelper]
  split
  · exact .pure ho
  · have hname : Ensures (fun called => ∃ index, called = kind.helperName index)
        (request kind name) := fun registry => ⟨registry.indexOf name, rfl⟩
    refine hname.bind fun called hcalled => .pure ?_
    obtain ⟨index, rfl⟩ := hcalled
    exact .function (hc.helper outer kind index) h

/-! ## Checks -/

/-- The two tests for an object meet a condition that the input meets. -/
theorem objectConditions_meets {outer : List (List String)} {input : Expr}
    (hi : (c.under outer).Everywhere input) :
    ∀ condition ∈ Expr.objectConditions input, (c.under outer).Everywhere condition :=
  List.forall_mem_cons.mpr ⟨.binary _ (.string _) (.unary _ hi),
    List.forall_mem_singleton.mpr (.binary _ .null hi)⟩

mutual

/-- A check meets a condition that its input fits, under any closures around it. -/
theorem check_meets (hc : c.Serves base) {depth : Nat} {outer : List (List String)}
    (hnest : Nest binders base depth outer) (type : Ty) {input : Expr}
    (h : c.Fits base outer input) :
    Ensures (c.under outer).Everywhere (scope.check type depth input) := by
  cases type with
  | mk kind _ =>
    rw [check]
    exact checkKind_meets hc hnest kind h

/-- A check of a kind of type meets the condition: every closure adds its binder to the nest. -/
theorem checkKind_meets (hc : c.Serves base) {depth : Nat} {outer : List (List String)}
    (hnest : Nest binders base depth outer) (kind : TyKind) {input : Expr}
    (h : c.Fits base outer input) :
    Ensures (c.under outer).Everywhere (scope.checkKind kind depth input) := by
  have hi := h.everywhere hnest
  cases kind with
  | string | boolean | bigInt | function =>
    rw [checkKind]
    exact .pure (.binary _ (.string _) (.unary _ hi))
  | number =>
    rw [checkKind]
    have hfinite : (c.under outer).Everywhere
        (.invoke (.property (.identifier "Number") "isFinite") [input]) :=
      .method (.identifier (hc.standard outer (by simp [standardNames]))) (by decide)
        (List.forall_mem_singleton.mpr hi)
    exact .pure (.conjunction (List.forall_mem_cons.mpr
      ⟨.binary _ (.string _) (.unary _ hi), List.forall_mem_singleton.mpr hfinite⟩))
  | null =>
    rw [checkKind]
    exact .pure (.binary _ .null hi)
  | undefined | void =>
    rw [checkKind]
    exact .pure (hc.isUndefined hi)
  | literalString value =>
    rw [checkKind]
    exact .pure (.binary _ (.string value) hi)
  | literalNumber value =>
    rw [checkKind]
    exact .pure (.binary _ (.number value) hi)
  | literalBoolean value =>
    rw [checkKind]
    exact .pure (.binary _ (.boolean value) hi)
  | never | any | unknown | promise | internal =>
    rw [checkKind]
    exact .pure (.boolean _)
  | date =>
    rw [checkKind]
    exact .pure (.binary _ hi (.identifier (hc.standard outer (by simp [standardNames]))))
  | array element =>
    rw [checkKind]
    have hparams : OfLevel binders depth [bindingName depth "elem"] :=
      .singleton (by simp [binders]) depth
    refine .bind (check_meets hc (hnest.push hparams) element (.parameter hc List.mem_cons_self))
      fun condition hcondition => ?_
    split
    · exact .pure (hc.isArray hi)
    · exact .pure (.conjunction (List.forall_mem_cons.mpr ⟨hc.isArray hi,
        List.forall_mem_singleton.mpr (hc.traverse _ hnest hi (by decide) hparams hcondition)⟩))
  | tuple elements =>
    rw [checkKind]
    refine .bind (checkElements_meets hc hnest elements 0 h) fun conditions hconditions => ?_
    exact .pure (.conjunction (List.forall_mem_cons.mpr ⟨hc.isArray hi,
      List.forall_mem_cons.mpr ⟨.binary _ (.number _) (hi.property _), hconditions⟩⟩))
  | object properties =>
    rw [checkKind]
    refine .bind (checkProperties_meets hc hnest properties h) fun conditions hconditions => ?_
    exact .pure (.conjunction
      (List.forall_mem_append.mpr ⟨objectConditions_meets hi, hconditions⟩))
  | record value =>
    rw [checkKind]
    have hparams : OfLevel binders depth [bindingName depth "value"] :=
      .singleton (by simp [binders]) depth
    refine .bind (check_meets hc (hnest.push hparams) value (.parameter hc List.mem_cons_self))
      fun condition hcondition => ?_
    split
    · exact .pure (.conjunction (objectConditions_meets hi))
    · have hvalues := hc.ofObject "values" hi (by decide)
      exact .pure (.conjunction (List.forall_mem_append.mpr ⟨objectConditions_meets hi,
        List.forall_mem_singleton.mpr
          (hc.traverse _ hnest hvalues (by decide) hparams hcondition)⟩))
  | reference name =>
    rw [checkKind]
    exact .bind (callHelper_meets hc .check name (List.forall_mem_singleton.mpr hi) (.boolean true))
      fun _ hresult => .pure hresult
  | union members =>
    rw [checkKind]
    exact .bind (checkMembers_meets hc hnest members h)
      fun _ hconditions => .pure (.disjunction hconditions)
  | intersection members =>
    rw [checkKind]
    exact .bind (checkMembers_meets hc hnest members h)
      fun _ hconditions => .pure (.conjunction hconditions)

/-- The checks of tuple elements meet the condition. -/
theorem checkElements_meets (hc : c.Serves base) {depth : Nat} {outer : List (List String)}
    (hnest : Nest binders base depth outer) (elements : List Ty) (position : Nat) {input : Expr}
    (h : c.Fits base outer input) :
    Ensures (fun conditions => ∀ condition ∈ conditions, (c.under outer).Everywhere condition)
      (scope.checkElements elements depth input position) := by
  cases elements with
  | nil =>
    rw [checkElements]
    exact .pure (by simp)
  | cons element rest =>
    rw [checkElements]
    exact .bind (check_meets hc hnest element (h.position position)) fun _ hfirst =>
      .bind (checkElements_meets hc hnest rest (position + 1) h) fun _ hrest =>
        .pure (List.forall_mem_cons.mpr ⟨hfirst, hrest⟩)

/-- The checks of properties meet the condition. -/
theorem checkProperties_meets (hc : c.Serves base) {depth : Nat} {outer : List (List String)}
    (hnest : Nest binders base depth outer) (properties : List TyProperty) {input : Expr}
    (h : c.Fits base outer input) :
    Ensures (fun conditions => ∀ condition ∈ conditions, (c.under outer).Everywhere condition)
      (scope.checkProperties properties depth input) := by
  cases properties with
  | nil =>
    rw [checkProperties]
    exact .pure (by simp)
  | cons property rest =>
    obtain ⟨name, type, optional, _⟩ := property
    rw [checkProperties]
    have hvalue := h.member name
    refine .bind (check_meets hc hnest type hvalue) fun condition hcondition => ?_
    refine .bind (checkProperties_meets hc hnest rest h) fun conditions hconditions => ?_
    refine .pure (List.forall_mem_cons.mpr ⟨?_, hconditions⟩)
    split
    · exact .disjunction (List.forall_mem_cons.mpr ⟨hc.isUndefined (hvalue.everywhere hnest),
        List.forall_mem_singleton.mpr hcondition⟩)
    · exact hcondition

/-- The checks of the members of a union or an intersection meet the condition. -/
theorem checkMembers_meets (hc : c.Serves base) {depth : Nat} {outer : List (List String)}
    (hnest : Nest binders base depth outer) (members : List Ty) {input : Expr}
    (h : c.Fits base outer input) :
    Ensures (fun conditions => ∀ condition ∈ conditions, (c.under outer).Everywhere condition)
      (scope.checkMembers members depth input) := by
  cases members with
  | nil =>
    rw [checkMembers]
    exact .pure (by simp)
  | cons member rest =>
    rw [checkMembers]
    exact .bind (check_meets hc hnest member h) fun _ hfirst =>
      .bind (checkMembers_meets hc hnest rest h) fun _ hrest =>
        .pure (List.forall_mem_cons.mpr ⟨hfirst, hrest⟩)

end

/-! ## Validators -/

section

variable {outer : List (List String)} {input path condition : Expr}

/-- A reported condition meets a condition that its parts meet. -/
theorem orReport_meets (hc : c.Serves base) (h : (c.under outer).Everywhere condition)
    (hp : (c.under outer).Everywhere path) (hi : (c.under outer).Everywhere input)
    (expected : String) : (c.under outer).Everywhere (orReport condition path expected input) := by
  have hname : (c.under outer).holds [] (.identifier reporter) :=
    hc.name outer reporter (not_boundFrom_of_head rfl (by decide))
  have hreport : (c.under outer).Everywhere (reportMismatch path expected input) := by
    refine .function hname ?_
    simp only [List.forall_mem_cons]
    exact ⟨hp, .string expected, hi, by simp⟩
  exact .disjunction (List.forall_mem_cons.mpr ⟨h, List.forall_mem_singleton.mpr hreport⟩)

/-- A reported test for an object meets a condition that the path and the input meet. -/
theorem objectHead_meets (hc : c.Serves base) (hp : (c.under outer).Everywhere path)
    (hi : (c.under outer).Everywhere input) (expected : String) :
    (c.under outer).Everywhere (objectHead path expected input) :=
  orReport_meets hc (.conjunction (objectConditions_meets hi)) hp hi expected

/-- The test of all flags meets the condition, its own closure included. -/
theorem everyFlag_meets (hc : c.Serves base) {depth : Nat} (hnest : Nest binders base depth outer)
    (h : (c.under outer).Everywhere input) : (c.under outer).Everywhere (everyFlag input) :=
  hc.sift hnest h (by decide) (by simp)
    (.identifier (hc.name _ "flag" (not_boundFrom_parameter (by simp [parameters]))))

/-- A condition on a container and its parts meets the condition. -/
theorem combine_meets (hc : c.Serves base) {depth : Nat} (hnest : Nest binders base depth outer)
    {head : Expr} {items : List Expr} (h : (c.under outer).Everywhere head)
    (hs : ∀ item ∈ items, (c.under outer).Everywhere item) :
    (c.under outer).Everywhere (combine head items) := by
  rw [combine]
  split
  · exact h
  · exact .conjunction (List.forall_mem_cons.mpr ⟨h,
      List.forall_mem_singleton.mpr (everyFlag_meets hc hnest (.array hs))⟩)

/-- A path fits with a computed step that fits. -/
theorem indexed_fits {step : Expr} (hp : c.Fits base outer path) (hs : c.Fits base outer step) :
    c.Fits base outer (indexed path step) := by
  refine .concatenation ?_
  simp only [List.forall_mem_cons]
  exact ⟨hp, .string _, hs, .string _, by simp⟩

/-- A path fits with a literal step. -/
theorem step_fits (hp : c.Fits base outer path) (text : String) :
    c.Fits base outer (.concatenation [path, .string text]) :=
  .concatenation (List.forall_mem_cons.mpr ⟨hp, List.forall_mem_singleton.mpr (.string text)⟩)

end

mutual

/-- A validator meets a condition that its input and its path fit. -/
theorem validate_meets (hc : c.Serves base) {depth : Nat} {outer : List (List String)}
    (hnest : Nest binders base depth outer) (type : Ty) (expected : String) {input path : Expr}
    (h : c.Fits base outer input) (hpath : c.Fits base outer path) :
    Ensures (c.under outer).Everywhere (scope.validate type depth input path expected) := by
  cases type with
  | mk kind _ =>
    rw [validate]
    exact validateKind_meets hc hnest kind expected h hpath

/-- A validator of a kind of type meets the condition: every closure adds its binders to the nest.
-/
theorem validateKind_meets (hc : c.Serves base) {depth : Nat} {outer : List (List String)}
    (hnest : Nest binders base depth outer) (kind : TyKind) (expected : String)
    {input path : Expr} (h : c.Fits base outer input) (hpath : c.Fits base outer path) :
    Ensures (c.under outer).Everywhere (scope.validateKind kind depth input path expected) := by
  have hi := h.everywhere hnest
  have hp := hpath.everywhere hnest
  cases kind with
  | reference name =>
    rw [validateKind]
    exact .bind (callHelper_meets hc .validate name (by simp [hi, hp]) (.boolean true))
      fun _ hresult => .pure hresult
  | array element =>
    rw [validateKind]
    have hhead := orReport_meets hc (hc.isArray hi) hp hi expected
    have hparams : OfLevel binders depth [bindingName depth "elem", bindingName depth "index"] :=
      .pair (by simp [binders]) (by simp [binders]) depth
    refine .bind (validate_meets hc (hnest.push hparams) element _ (.parameter hc (by simp))
      (indexed_fits (hpath.enter _) (.parameter hc (by simp)))) fun item hitem => ?_
    split
    · exact .pure hhead
    · have hitems := hc.traverse "map" hnest hi (by decide) hparams hitem
      exact .pure (.conjunction (List.forall_mem_cons.mpr ⟨hhead,
        List.forall_mem_singleton.mpr (everyFlag_meets hc hnest hitems)⟩))
  | tuple elements =>
    rw [validateKind]
    refine .bind (validateElements_meets hc hnest elements 0 h hpath) fun items hitems => ?_
    have hshape := Everywhere.conjunction (List.forall_mem_cons.mpr ⟨hc.isArray hi,
      List.forall_mem_singleton.mpr (Everywhere.binary .strictEqual
        (.number (Float.ofNat elements.length)) (hi.property "length"))⟩)
    exact .pure (combine_meets hc hnest (orReport_meets hc hshape hp hi expected) hitems)
  | object properties =>
    rw [validateKind]
    exact .bind (validateProperties_meets hc hnest properties h hpath) fun _ hitems =>
      .pure (combine_meets hc hnest (objectHead_meets hc hp hi expected) hitems)
  | record value =>
    rw [validateKind]
    have hhead := objectHead_meets hc hp hi expected
    have hparams : OfLevel binders depth [bindingName depth "key"] :=
      .singleton (by simp [binders]) depth
    have hkey : c.Fits base ([bindingName depth "key"] :: outer)
        (.identifier (bindingName depth "key")) := .parameter hc List.mem_cons_self
    refine .bind (validate_meets hc (hnest.push hparams) value _ ((h.enter _).element hkey)
      (indexed_fits (hpath.enter _) (hkey.standardJson hc))) fun item hitem => ?_
    split
    · exact .pure hhead
    · have hkeys := hc.ofObject "keys" hi (by decide)
      have hitems := hc.traverse "map" hnest hkeys (by decide) hparams hitem
      exact .pure (.conjunction (List.forall_mem_cons.mpr ⟨hhead,
        List.forall_mem_singleton.mpr (everyFlag_meets hc hnest hitems)⟩))
  | _ =>
    rw [validateKind]
    · refine .bind (checkKind_meets hc hnest _ h) fun condition hcondition => ?_
      split
      · exact .pure hcondition
      · exact .pure (orReport_meets hc hcondition hp hi expected)
    all_goals
      intros
      contradiction

/-- The validators of tuple elements meet the condition. -/
theorem validateElements_meets (hc : c.Serves base) {depth : Nat} {outer : List (List String)}
    (hnest : Nest binders base depth outer) (elements : List Ty) (position : Nat)
    {input path : Expr} (h : c.Fits base outer input) (hpath : c.Fits base outer path) :
    Ensures (fun items => ∀ item ∈ items, (c.under outer).Everywhere item)
      (scope.validateElements elements depth input path position) := by
  cases elements with
  | nil =>
    rw [validateElements]
    exact .pure (by simp)
  | cons element rest =>
    rw [validateElements]
    refine .bind (validate_meets hc hnest element _ (h.position position) (step_fits hpath _))
      fun item hitem => ?_
    refine .bind (validateElements_meets hc hnest rest (position + 1) h hpath)
      fun items hitems => .pure ?_
    split
    · exact hitems
    · exact List.forall_mem_cons.mpr ⟨hitem, hitems⟩

/-- The validators of properties meet the condition. -/
theorem validateProperties_meets (hc : c.Serves base) {depth : Nat} {outer : List (List String)}
    (hnest : Nest binders base depth outer) (properties : List TyProperty) {input path : Expr}
    (h : c.Fits base outer input) (hpath : c.Fits base outer path) :
    Ensures (fun items => ∀ item ∈ items, (c.under outer).Everywhere item)
      (scope.validateProperties properties depth input path) := by
  cases properties with
  | nil =>
    rw [validateProperties]
    exact .pure (by simp)
  | cons property rest =>
    obtain ⟨name, type, optional, _⟩ := property
    rw [validateProperties]
    have hvalue := h.member name
    refine .bind (validate_meets hc hnest type _ hvalue (step_fits hpath _)) fun item hitem => ?_
    refine .bind (validateProperties_meets hc hnest rest h hpath) fun items hitems => .pure ?_
    split
    · exact hitems
    · refine List.forall_mem_cons.mpr ⟨?_, hitems⟩
      split
      · exact .disjunction (List.forall_mem_cons.mpr ⟨hc.isUndefined (hvalue.everywhere hnest),
          List.forall_mem_singleton.mpr hitem⟩)
      · exact hitem

end

/-! ## Serializers -/

section

variable {c : Condition scope.factory} {depth : Nat} {outer : List (List String)} {input : Expr}

/-- Joined texts meet a condition that the list of them meets. -/
theorem bracketed_meets {factory : Expr} {c : Condition factory} {items : Expr}
    (h : c.Everywhere items) (opening closing : String) :
    c.Everywhere (bracketed opening items closing) := by
  have hjoined : c.Everywhere (.invoke (.property items "join") [.string ","]) :=
    .method h (by decide) (List.forall_mem_singleton.mpr (.string ","))
  refine .concatenation ?_
  simp only [List.forall_mem_cons]
  exact ⟨.string _, hjoined, .string _, by simp⟩

/-- A list without its undefined entries meets the condition, the closure of the filter included. -/
theorem present_meets (hc : c.Serves base) (hnest : Nest binders base depth outer)
    {entries : List Expr} (h : ∀ entry ∈ entries, (c.under outer).Everywhere entry) :
    (c.under outer).Everywhere (present entries) := by
  have hundefined : c.holds (["str"] :: outer) (.identifier "undefined") :=
    hc.standard (["str"] :: outer) (by simp [standardNames])
  have hstr : c.holds (["str"] :: outer) (.identifier "str") :=
    hc.name _ "str" (not_boundFrom_parameter (by simp [parameters]))
  exact hc.sift hnest (.array h) (by decide) (by simp)
    (.binary _ (.identifier hundefined) (.identifier hstr))

/-- A choice meets a condition that all branches and the last resort meet. -/
theorem choose_meets {factory : Expr} {c : Condition factory} {branches : List (Expr × Expr)}
    {otherwise : Expr}
    (h : ∀ branch ∈ branches, c.Everywhere branch.1 ∧ c.Everywhere branch.2)
    (ho : c.Everywhere otherwise) : c.Everywhere (choose branches otherwise) := by
  rw [choose]
  induction branches with
  | nil => exact ho
  | cons branch branches ih =>
    obtain ⟨⟨hcondition, htext⟩, hrest⟩ := List.forall_mem_cons.mp h
    rw [List.foldr_cons]
    split
    · exact htext
    · exact .conditional hcondition htext (ih hrest)

/-- The call behind the members of a union meets the condition. -/
theorem noMatch_meets (hc : c.ServesCalls base) (hnest : Nest itemBinders base depth outer)
    (type : Ty) (hi : (c.under outer).Everywhere input) :
    (c.under outer).Everywhere (scope.noMatch type input) := by
  refine hc.call hnest "throws" (List.forall_mem_singleton.mpr (.objectOf ?_))
  exact List.forall_mem_cons.mpr ⟨.string _, List.forall_mem_singleton.mpr hi⟩

end

variable {c : Condition scope.factory}

mutual

/-- A serializer meets a condition that its input fits. -/
theorem serialize_meets (hc : c.ServesCalls base) {depth : Nat} {outer : List (List String)}
    (hnest : Nest itemBinders base depth outer) (type : Ty) {input : Expr}
    (h : c.Fits base outer input) :
    Ensures (c.under outer).Everywhere (scope.serialize type depth input) := by
  cases type with
  | mk kind aliasName =>
    rw [serialize]
    exact serializeKind_meets hc hnest kind aliasName h

/-- A serializer of a kind of type meets the condition: every closure adds its binder to the nest.
-/
theorem serializeKind_meets (hc : c.ServesCalls base) {depth : Nat} {outer : List (List String)}
    (hnest : Nest itemBinders base depth outer) (kind : TyKind) (aliasName : Option String)
    {input : Expr} (h : c.Fits base outer input) :
    Ensures (c.under outer).Everywhere (scope.serializeKind kind aliasName depth input) := by
  have hwide := hnest.mono itemBinders_subset
  have hi := h.everywhere hwide
  have hbase := hc.toServes
  cases kind with
  | string | number =>
    rw [serializeKind]
    exact .pure (hc.call hnest _ (List.forall_mem_singleton.mpr hi))
  | boolean =>
    rw [serializeKind]
    exact .pure (.function (hbase.standard outer (by simp [standardNames]))
      (List.forall_mem_singleton.mpr hi))
  | null | literalString | literalNumber | literalBoolean =>
    rw [serializeKind]
    exact .pure (.string _)
  | date =>
    rw [serializeKind]
    have htext : (c.under outer).Everywhere (.invoke (.property input "toJSON") []) :=
      .method hi (by decide) (by simp)
    exact .pure (hc.call hnest _ (List.forall_mem_singleton.mpr htext))
  | array element =>
    rw [serializeKind]
    have hparams : OfLevel itemBinders depth [bindingName depth "elem"] :=
      .singleton (by simp [itemBinders]) depth
    refine .bind (serialize_meets hc (hnest.push hparams) element
      (.parameter hbase List.mem_cons_self)) fun text htext => ?_
    exact .pure (bracketed_meets (hbase.traverse _ hwide hi (by decide)
      (hparams.mono itemBinders_subset) htext) _ _)
  | tuple elements =>
    rw [serializeKind]
    refine .bind (serializeElements_meets hc hnest elements 0 h) fun parts hparts => ?_
    refine .pure (.concatenation ?_)
    simp only [List.cons_append, List.forall_mem_cons, List.forall_mem_append]
    exact ⟨.string _, hparts, .string _, by simp⟩
  | object properties =>
    rw [serializeKind]
    split
    · exact .bind (serializeEntries_meets hc hnest properties h) fun _ hentries =>
        .pure (bracketed_meets (present_meets hbase hwide hentries) _ _)
    · refine .bind (serializeProperties_meets hc hnest properties true h) fun parts hparts => ?_
      refine .pure (.concatenation ?_)
      simp only [List.cons_append, List.forall_mem_cons, List.forall_mem_append]
      exact ⟨.string _, hparts, .string _, by simp⟩
  | record value =>
    rw [serializeKind]
    have hparams : OfLevel itemBinders depth [bindingName depth "key"] :=
      .singleton (by simp [itemBinders]) depth
    have hinner := hnest.push hparams
    have hkey : c.Fits base ([bindingName depth "key"] :: outer)
        (.identifier (bindingName depth "key")) := .parameter hbase List.mem_cons_self
    refine .bind (serialize_meets hc hinner value ((h.enter _).element hkey)) fun text htext => ?_
    have hentry : (c.under ([bindingName depth "key"] :: outer)).Everywhere
        (.concatenation [.invoke (scope.runtime "string")
          [.identifier (bindingName depth "key")], .string ":", text]) := by
      refine .concatenation ?_
      simp only [List.forall_mem_cons]
      exact ⟨hc.call hinner "string" (List.forall_mem_singleton.mpr
        (hkey.everywhere (hinner.mono itemBinders_subset))), .string _, htext, by simp⟩
    have hkeys := hbase.ofObject "keys" hi (by decide)
    exact .pure (bracketed_meets (hbase.traverse _ hwide hkeys (by decide)
      (hparams.mono itemBinders_subset) hentry) _ _)
  | reference name =>
    rw [serializeKind]
    exact .bind (callHelper_meets hbase .serialize name (List.forall_mem_singleton.mpr hi)
      (hbase.standardJson hi)) fun _ hresult => .pure hresult
  | union members =>
    rw [serializeKind]
    exact .bind (serializeMembers_meets hc hnest members false h) fun _ hbranches =>
      .pure (choose_meets hbranches (noMatch_meets hc hnest _ hi))
  | _ =>
    rw [serializeKind]
    exact .pure (hbase.standardJson hi)

/-- The parts for tuple elements meet the condition. -/
theorem serializeElements_meets (hc : c.ServesCalls base) {depth : Nat}
    {outer : List (List String)} (hnest : Nest itemBinders base depth outer) (elements : List Ty)
    (position : Nat) {input : Expr} (h : c.Fits base outer input) :
    Ensures (fun texts => ∀ text ∈ texts, (c.under outer).Everywhere text)
      (scope.serializeElements elements depth input position) := by
  cases elements with
  | nil =>
    rw [serializeElements]
    exact .pure (by simp)
  | cons element rest =>
    rw [serializeElements]
    refine .bind (serialize_meets hc hnest element (h.position position)) fun text htext => ?_
    refine .bind (serializeElements_meets hc hnest rest (position + 1) h) fun texts htexts =>
      .pure ?_
    split
    · exact List.forall_mem_cons.mpr ⟨htext, htexts⟩
    · exact List.forall_mem_cons.mpr ⟨.string _, List.forall_mem_cons.mpr ⟨htext, htexts⟩⟩

/-- The parts for properties that are all there meet the condition. -/
theorem serializeProperties_meets (hc : c.ServesCalls base) {depth : Nat}
    {outer : List (List String)} (hnest : Nest itemBinders base depth outer)
    (properties : List TyProperty) (first : Bool) {input : Expr} (h : c.Fits base outer input) :
    Ensures (fun texts => ∀ text ∈ texts, (c.under outer).Everywhere text)
      (scope.serializeProperties properties depth input first) := by
  cases properties with
  | nil =>
    rw [serializeProperties]
    exact .pure (by simp)
  | cons property rest =>
    obtain ⟨name, type, optional, _⟩ := property
    rw [serializeProperties]
    refine .bind (serialize_meets hc hnest type (h.member name)) fun text htext => ?_
    refine .bind (serializeProperties_meets hc hnest rest false h) fun texts htexts => ?_
    exact .pure (List.forall_mem_cons.mpr ⟨.string _, List.forall_mem_cons.mpr ⟨htext, htexts⟩⟩)

/-- The entries for properties that may be absent meet the condition. -/
theorem serializeEntries_meets (hc : c.ServesCalls base) {depth : Nat}
    {outer : List (List String)} (hnest : Nest itemBinders base depth outer)
    (properties : List TyProperty) {input : Expr} (h : c.Fits base outer input) :
    Ensures (fun entries => ∀ entry ∈ entries, (c.under outer).Everywhere entry)
      (scope.serializeEntries properties depth input) := by
  cases properties with
  | nil =>
    rw [serializeEntries]
    exact .pure (by simp)
  | cons property rest =>
    obtain ⟨name, type, optional, _⟩ := property
    rw [serializeEntries]
    have hvalue := h.member name
    refine .bind (serializeDefined_meets hc hnest type hvalue) fun text htext => ?_
    refine .bind (serializeEntries_meets hc hnest rest h) fun entries hentries => ?_
    have hentry : (c.under outer).Everywhere
        (.concatenation [.string (Json.quote name ++ ":"), text]) :=
      .concatenation (List.forall_mem_cons.mpr ⟨.string _, List.forall_mem_singleton.mpr htext⟩)
    refine .pure (List.forall_mem_cons.mpr ⟨?_, hentries⟩)
    split
    · have hundefined : (c.under outer).holds [] (.identifier "undefined") :=
        hc.toServes.standard outer (by simp [standardNames])
      exact .conditional (hc.toServes.isUndefined
        (hvalue.everywhere (hnest.mono itemBinders_subset))) (.identifier hundefined) hentry
    · exact hentry

/-- The serializer of a value that is not undefined meets the condition. -/
theorem serializeDefined_meets (hc : c.ServesCalls base) {depth : Nat}
    {outer : List (List String)} (hnest : Nest itemBinders base depth outer) (type : Ty)
    {input : Expr} (h : c.Fits base outer input) :
    Ensures (c.under outer).Everywhere (scope.serializeDefined type depth input) := by
  have hi := h.everywhere (hnest.mono itemBinders_subset)
  obtain ⟨kind, aliasName⟩ := type
  cases kind with
  | union members =>
    rw [serializeDefined]
    split
    · exact .pure (hc.toServes.standardJson hi)
    · exact serializeOnly_meets hc hnest members h
    · exact .bind (serializeMembers_meets hc hnest members true h) fun _ hbranches =>
        .pure (choose_meets hbranches (noMatch_meets hc hnest _ hi))
  | _ =>
    rw [serializeDefined]
    · exact serializeKind_meets hc hnest _ aliasName h
    · intros
      contradiction

/-- The serializer of the only member that is left meets the condition. -/
theorem serializeOnly_meets (hc : c.ServesCalls base) {depth : Nat} {outer : List (List String)}
    (hnest : Nest itemBinders base depth outer) (members : List Ty) {input : Expr}
    (h : c.Fits base outer input) :
    Ensures (c.under outer).Everywhere (scope.serializeOnly members depth input) := by
  cases members with
  | nil =>
    rw [serializeOnly]
    exact .pure (hc.toServes.standardJson (h.everywhere (hnest.mono itemBinders_subset)))
  | cons member rest =>
    rw [serializeOnly]
    split
    · exact serializeOnly_meets hc hnest rest h
    · exact serialize_meets hc hnest member h

/-- The branches of a union meet the condition, checks and serializers. -/
theorem serializeMembers_meets (hc : c.ServesCalls base) {depth : Nat}
    {outer : List (List String)} (hnest : Nest itemBinders base depth outer) (members : List Ty)
    (defined : Bool) {input : Expr} (h : c.Fits base outer input) :
    Ensures (fun branches => ∀ branch ∈ branches,
        (c.under outer).Everywhere branch.1 ∧ (c.under outer).Everywhere branch.2)
      (scope.serializeMembers members defined depth input) := by
  cases members with
  | nil =>
    rw [serializeMembers]
    exact .pure (by simp)
  | cons member rest =>
    rw [serializeMembers]
    split
    · exact serializeMembers_meets hc hnest rest defined h
    · exact .bind (check_meets hc.toServes (hnest.mono itemBinders_subset) member h)
        fun _ hcondition => .bind (serialize_meets hc hnest member h) fun _ htext =>
          .bind (serializeMembers_meets hc hnest rest defined h) fun _ hbranches =>
            .pure (List.forall_mem_cons.mpr ⟨⟨hcondition, htext⟩, hbranches⟩)

end

/-! ## Where generation starts -/

section

variable {depth : Nat} {input path : Expr}

/-- A check meets a condition everywhere if its input fits at the start. -/
theorem check_everywhere (hc : c.Serves depth) (type : Ty) (h : c.Fits depth [] input) :
    Ensures c.Everywhere (scope.check type depth input) := by
  simpa only [under_nil] using check_meets hc (.start binders depth) type h

/-- A serializer meets a condition everywhere if its input fits at the start. -/
theorem serialize_everywhere {c : Condition scope.factory} (hc : c.ServesCalls depth) (type : Ty)
    (h : c.Fits depth [] input) : Ensures c.Everywhere (scope.serialize type depth input) := by
  simpa only [under_nil] using serialize_meets hc (.start itemBinders depth) type h

/-- A validator meets a condition everywhere if its input and its path fit at the start. -/
theorem validate_everywhere (hc : c.Serves depth) (type : Ty) (expected : String)
    (h : c.Fits depth [] input) (hpath : c.Fits depth [] path) :
    Ensures c.Everywhere (scope.validate type depth input path expected) := by
  simpa only [under_nil] using validate_meets hc (.start binders depth) type expected h hpath

end

end TypedRoutes.Scope
