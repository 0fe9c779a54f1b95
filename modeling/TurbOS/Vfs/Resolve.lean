import TurbOS.Vfs.Open

/-!
# What `open` returns

For a path of at most one `..`, at most one `.` and names, in this order, `open` returns what
the path means if and only if `Opens` holds.  For other paths with dots it treats the dots
behind as names, and returns the right node only by coincidence.
-/

open Fuel

namespace TurbOS.Vfs

variable {N : Store Node} {words names : List (List Char)} {v v' : FileSystem}
  {start : ℕ} {trail up stay : Bool}

/-! ## The call of `openNext` -/

/-- The array that `openNext` is given: the components, and an empty one if the path ends in
a slash. -/
def pathArray (trail : Bool) (comps : List (List Char)) : List (List Char) :=
  comps ++ if trail then [[]] else []

lemma ahead_pathArray (trail : Bool) (init comps : List (List Char)) :
    Ahead (pathArray trail (init ++ comps)) init.length comps := by
  intro j hj
  rw [pathArray, List.append_assoc, List.getElem?_append_right (by omega), Nat.add_sub_cancel_left,
    List.getElem?_append_left hj]

/-- The first component stands in front. -/
lemma pathArray_head (trail : Bool) {w : List Char} {comps : List (List Char)}
    (hw : comps.head? = some w) : 0 < comps.length ∧ (pathArray trail comps)[0]? = some w := by
  obtain ⟨rest, rfl⟩ := List.head?_eq_some_iff.mp hw
  exact ⟨Nat.succ_pos _, rfl⟩

/-- With enough fuel the call returns what the path means. -/
def Calls (N : Store Node) (start : ℕ) (trail : Bool) (comps : List (List Char)) (v : FileSystem) :
    Prop :=
  ∃ F, ∀ fuel ≥ F, ∃ v', openNext (pathArray trail comps) fuel
    ⟨some start, none, comps.length, 0⟩ v = some (resolve N start comps, v')

lemma RestGives.calls {node : Node} {w : List Char} {comps : List (List Char)} (hT : Tree N)
    (hv : v.nodes = N) (hp : N.get start = some node) (hw : comps.head? = some w)
    (hdots : w ≠ ['.', '.'])
    (h : RestGives N (pathArray trail comps) (resolve N start comps)
      ⟨some start, none, comps.length, 0⟩) : Calls N start trail comps v := by
  obtain ⟨F, hF⟩ := h
  obtain ⟨hlen, hword⟩ := pathArray_head trail hw
  refine ⟨F + 1, fun fuel hfuel => ?_⟩
  obtain ⟨f, rfl⟩ : ∃ f, fuel = f + 1 := ⟨fuel - 1, by omega⟩
  obtain ⟨out, hout, hres⟩ := hF f (by omega) f (by omega) v hv
  refine ⟨out.2.unlock.unlock, ?_⟩
  rw [openNext_eq hT hv hp hlen, openDotDot]
  dsimp only
  rw [hword, Option.bind_some, if_neg hdots, Option.bind_some, hout, Option.map_some, hres]

/-- A call on a component other than `..`. -/
lemma calls_rest {node : Node} {w : List Char} {comps : List (List Char)} (hT : Tree N)
    (hv : v.nodes = N) (hp : N.get start = some node) (hw : comps.head? = some w)
    (hdots : w ≠ ['.', '.']) (h : Calls N start trail comps v) :
    ∃ fuel out, openRest (openNext (pathArray trail comps) fuel) (pathArray trail comps) fuel
      ⟨some start, none, comps.length, 0⟩ v = some out ∧
        out.1.childNode = resolve N start comps := by
  obtain ⟨fuel, hF⟩ := h
  obtain ⟨v', h⟩ := hF fuel le_rfl
  obtain ⟨hlen, hword⟩ := pathArray_head trail hw
  cases fuel with
  | zero => simp [openNext] at h
  | succ fuel =>
    rw [openNext_eq hT hv hp hlen, openDotDot] at h
    dsimp only at h
    rw [hword, Option.bind_some, if_neg hdots, Option.bind_some] at h
    obtain ⟨out, hout, heq⟩ := Option.map_eq_some_iff.mp h
    exact ⟨fuel, out, hout, (Prod.mk.inj heq).1⟩

lemma resolve_stay (stay : Bool) (hnames : ∀ w ∈ names, IsName w) (n : ℕ) :
    resolve N n (front false stay ++ names) = descend N n names := by
  cases stay with
  | false => exact resolve_names hnames n
  | true =>
    have hstay : resolve N n (['.'] :: names) = descend N n names := by
      rw [resolve, if_pos rfl]
      exact resolve_names hnames n
    exact hstay

lemma head_stay {w : List Char} (stay : Bool) (hnames : ∀ w ∈ names, IsName w)
    (hw : (front false stay ++ names).head? = some w) : w ≠ ['.', '.'] := by
  cases stay with
  | false =>
    have hw : names.head? = some w := hw
    exact (hnames w (List.mem_of_mem_head? hw)).2
  | true =>
    have hw : some ['.'] = some w := hw
    rw [← Option.some.inj hw]
    simp

/-- Without names there is only `.`. -/
lemma stay_of_ne_nil (h : front false stay ++ ([] : List (List Char)) ≠ []) : stay = true := by
  cases stay with
  | false => exact absurd rfl h
  | true => rfl

/-- A path that does not begin with `..`. -/
lemma calls_stay_iff {node : Node} (hT : Tree N) (hv : v.nodes = N) (hp : N.get start = some node)
    (hnames : ∀ w ∈ names, IsName w) (hne : front false stay ++ names ≠ []) :
    Calls N start trail (front false stay ++ names) v ↔ Opens N start trail false stay names := by
  obtain ⟨w, hw⟩ : ∃ w, (front false stay ++ names).head? = some w :=
    ⟨_, List.head?_eq_some_head hne⟩
  have hdots := head_stay stay hnames hw
  have hahead := ahead_pathArray trail [] (front false stay ++ names)
  by_cases hnil : names = []
  · -- the path `.`
    subst hnil
    obtain rfl := stay_of_ne_nil hne
    have hdot : (pathArray trail [['.']])[0]? = some ['.'] := rfl
    have hres : resolve N start (front false true ++ []) = some start :=
      resolve_stay true hnames start
    constructor
    · intro h
      obtain ⟨fuel, out, hout, hchild⟩ := calls_rest hT hv hp hw hdots h
      refine .inl ⟨rfl, ?_, by simp, by simp⟩
      have hout : openRest (openNext (pathArray trail [['.']]) fuel) (pathArray trail [['.']]) fuel
        ⟨some start, none, 1, 0⟩ v = some out := hout
      rw [openRest_dot hdot] at hout
      obtain ⟨r, hr, hloop⟩ := Option.bind_eq_some_iff.mp hout
      by_contra hchildren
      obtain ⟨y, hy, hbelow⟩ := loop_below_of_lt hT (openNext_keeps _ fuel)
        ((openNext_keeps _ fuel _ _ _ hr).trans hv) hp (List.length_pos_iff.mpr hchildren) hloop
      rw [hchild, hres] at hy
      rw [← Option.some.inj hy] at hbelow
      exact hT.not_below hbelow
    · rintro (⟨-, hchildren, -⟩ | ⟨hne', -⟩)
      · refine RestGives.calls hT hv hp hw hdots ?_
        rw [hres]
        have hrest : RestGives N (pathArray trail [['.']]) (some start) ⟨some start, none, 1, 0⟩ :=
          LoopGives.restGives_dot hdot (callReturns_zero _ _ _ _ _)
            (loopGives_of_no_children hT hp hchildren)
        exact hrest
      · exact absurd rfl hne'
  · -- names
    have hres := resolve_stay (N := N) stay hnames start
    constructor
    · intro h
      obtain ⟨fuel, out, hout, hchild⟩ := calls_rest hT hv hp hw hdots h
      rw [hres] at hchild
      exact .inr ⟨hnil, start, rfl, found_of_rest hT (openNext_keeps _ fuel) hv hp stay hnil hnames
        hahead hout hchild⟩
    · rintro (⟨hnil', -⟩ | ⟨-, p, hpe, hfound⟩)
      · exact absurd hnil' hnil
      · obtain rfl := Option.some.inj hpe
        refine RestGives.calls hT hv hp hw hdots ?_
        rw [hres]
        exact restGives_of_found hT hp stay hnil hnames hahead hfound

lemma resolve_up {node : Node} {rest : List (List Char)} (hp : N.get start = some node) :
    resolve N start (['.', '.'] :: rest) = node.parent.bind fun q => resolve N q rest := by
  rw [resolve, if_neg (by decide), if_pos rfl, parentOf, hp, Option.bind_some]

lemma Tree.get_of_parent {node : Node} {q : ℕ} (hT : Tree N) (hp : N.get start = some node)
    (hq : node.parent = some q) : IsChild N q start ∧ ∃ qnode, N.get q = some qnode := by
  have hchild : IsChild N q start := hT.parent start q (by rw [parentOf, hp, Option.bind_some, hq])
  refine ⟨hchild, Option.ne_none_iff_exists'.mp fun hnone => ?_⟩
  simp [IsChild, children, hnone] at hchild

/-- A call on `..` alone: behind the call for the parent, the loop runs over the children of the
directory itself. -/
lemma openNext_alone {node : Node} (trail : Bool) (hT : Tree N) (hv : v.nodes = N)
    (hp : N.get start = some node) (fuel : ℕ) :
    openNext (pathArray trail [['.', '.']]) (fuel + 2) ⟨some start, none, 1, 0⟩ v =
      (openRest (openNext (pathArray trail [['.', '.']]) (fuel + 1)) (pathArray trail [['.', '.']])
        (fuel + 1) ⟨some start, node.parent, 0, 1⟩ v.unlock).map fun r =>
          (r.1.childNode, r.2.unlock.unlock) := by
  have hderef : v.deref (some start) = some node := by
    rw [FileSystem.deref, Option.bind_some, hv, hp]
  have hword : (pathArray trail [['.', '.']])[0]? = some ['.', '.'] := rfl
  rw [openNext_eq hT hv hp (by omega), openDotDot]
  dsimp only
  rw [hword, Option.bind_some, if_pos rfl, hderef, Option.bind_some, if_neg (by omega), openNext,
    if_neg (by simp [decrement]), Option.map_some, Option.bind_some]
  rfl

/-- A call on `..` with more behind it: the parent is opened twice, in the recursive call, and in
the call itself. -/
lemma openNext_up {node : Node} {rest : List (List Char)} (trail : Bool) (hT : Tree N)
    (hv : v.nodes = N) (hp : N.get start = some node) (hlen : 0 < rest.length) (fuel : ℕ) :
    openNext (pathArray trail (['.', '.'] :: rest)) (fuel + 1)
      ⟨some start, none, rest.length + 1, 0⟩ v =
      (openNext (pathArray trail (['.', '.'] :: rest)) fuel ⟨node.parent, none, rest.length, 1⟩
        v).bind
        fun r =>
          (openRest (openNext (pathArray trail (['.', '.'] :: rest)) fuel)
            (pathArray trail (['.', '.'] :: rest)) fuel ⟨node.parent, none, rest.length, 1⟩ r.2).map
              fun r => (r.1.childNode, r.2.unlock.unlock) := by
  have hderef : v.deref (some start) = some node := by
    rw [FileSystem.deref, Option.bind_some, hv, hp]
  have hword : (pathArray trail (['.', '.'] :: rest))[0]? = some ['.', '.'] := rfl
  rw [openNext_eq hT hv hp (by omega), openDotDot]
  dsimp only
  rw [hword, Option.bind_some, if_pos rfl, hderef, Option.bind_some, if_pos (by omega),
    Option.bind_map]
  rfl

/-- The path `..`. -/
lemma calls_up_alone_iff {node : Node} (hT : Tree N) (hv : v.nodes = N)
    (hp : N.get start = some node) :
    Calls N start trail [['.', '.']] v ↔ children N start = [] ∧ trail := by
  have hres : resolve N start [['.', '.']] = node.parent := by
    rw [resolve_up hp]
    cases node.parent <;> rfl
  have heq := openNext_alone trail hT hv hp
  cases trail with
  | false =>
    refine iff_of_false ?_ (by simp)
    rintro ⟨F, hF⟩
    obtain ⟨v', h⟩ := hF (F + 2) (by omega)
    rw [List.length_singleton, heq] at h
    simp [openRest, openDot, pathArray] at h
  | true =>
    have hend : (pathArray true [['.', '.']])[1]? = some [] := rfl
    simp only [and_true]
    constructor
    · rintro ⟨F, hF⟩
      obtain ⟨v', h⟩ := hF (F + 2) (by omega)
      rw [List.length_singleton, heq, openRest_other hend (by simp), hres] at h
      obtain ⟨out, hout, hchild⟩ := Option.map_eq_some_iff.mp h
      by_contra hchildren
      obtain ⟨y, hy, hbelow⟩ := loop_below_of_lt hT (openNext_keeps _ _) (by exact hv) hp
        (List.length_pos_iff.mpr hchildren) hout
      rw [(Prod.mk.inj hchild).1] at hy
      exact hT.not_below (.head (hT.get_of_parent hp hy).1 hbelow)
    · intro hchildren
      have hrest : RestGives N (pathArray true [['.', '.']]) node.parent
          ⟨some start, node.parent, 0, 1⟩ :=
        LoopGives.restGives hend (by simp) (loopGives_of_no_children hT hp hchildren)
      obtain ⟨F, hF⟩ := hrest
      refine ⟨F + 2, fun fuel hfuel => ?_⟩
      obtain ⟨f, rfl⟩ : ∃ f, fuel = f + 2 := ⟨fuel - 2, by omega⟩
      obtain ⟨out, hout, hchild⟩ := hF (f + 1) (by omega) (f + 1) (by omega) v.unlock hv
      rw [List.length_singleton, heq, hout, hres, Option.map_some, hchild]
      exact ⟨_, rfl⟩

/-- A path that begins with `..` and goes on. -/
lemma calls_up_iff {node : Node} (hT : Tree N) (hv : v.nodes = N) (hp : N.get start = some node)
    (hnames : ∀ w ∈ names, IsName w) (hne : front false stay ++ names ≠ []) :
    Calls N start trail (['.', '.'] :: (front false stay ++ names)) v ↔
      names ≠ [] ∧ ∃ p, node.parent = some p ∧ Found N p names := by
  set rest := front false stay ++ names with hrest
  have hlen : 0 < rest.length := List.length_pos_iff.mpr hne
  have hahead : Ahead (pathArray trail (['.', '.'] :: rest)) 1 rest :=
    ahead_pathArray trail [['.', '.']] rest
  have heq := openNext_up trail hT hv hp hlen
  cases hparent : node.parent with
  | none =>
    refine iff_of_false ?_ (by simp)
    rintro ⟨F, hF⟩
    obtain ⟨v', h⟩ := hF (F + 2) (by omega)
    rw [List.length_cons, heq, hparent] at h
    simp [openNext, hlen, followNode, FileSystem.deref] at h
  | some q =>
    obtain ⟨hstart, qnode, hq⟩ := hT.get_of_parent hp hparent
    have hres : resolve N start (['.', '.'] :: rest) = descend N q names := by
      rw [resolve_up hp, hparent, Option.bind_some, hrest, resolve_stay stay hnames]
    obtain ⟨w, hw⟩ : ∃ w, rest.head? = some w := ⟨_, List.head?_eq_some_head hne⟩
    have hw1 : (pathArray trail (['.', '.'] :: rest))[1]? = some w := by
      have := hahead 0 hlen
      rw [← List.head?_eq_getElem?, hw] at this
      exact this
    constructor
    · rintro ⟨F, hF⟩
      obtain ⟨v', h⟩ := hF (F + 1) (by omega)
      rw [List.length_cons, heq, hparent, hres] at h
      obtain ⟨r, hr, h⟩ := Option.bind_eq_some_iff.mp h
      obtain ⟨out, hout, hchild⟩ := Option.map_eq_some_iff.mp h
      have hchild := (Prod.mk.inj hchild).1
      have hrv : r.2.nodes = N := (openNext_keeps _ _ _ _ _ hr).trans hv
      by_cases hnil : names = []
      · -- `../.`: the loop goes on through the children of the parent, the directory among them
        subst hnil
        obtain rfl := stay_of_ne_nil hne
        have hdot : (pathArray trail (['.', '.'] :: rest))[1]? = some ['.'] := rfl
        rw [openRest_dot hdot] at hout
        obtain ⟨r', hr', hloop⟩ := Option.bind_eq_some_iff.mp hout
        have hpos : 0 < (children N q).length := List.length_pos_of_mem hstart
        obtain ⟨y, hy, hbelow⟩ := loop_below_of_lt hT (openNext_keeps _ _)
          ((openNext_keeps _ _ _ _ _ hr').trans hrv) hq hpos hloop
        rw [hchild] at hy
        rw [← Option.some.inj hy] at hbelow
        exact absurd hbelow hT.not_below
      · exact ⟨hnil, q, rfl, found_of_rest hT (openNext_keeps _ F) hrv hq stay hnil hnames hahead
          hout hchild⟩
    · rintro ⟨hnil, p, hpq, hfound⟩
      obtain rfl := Option.some.inj hpq
      have hgives := restGives_of_found hT hq stay hnil hnames hahead hfound
      obtain ⟨F₁, hF₁⟩ := RestGives.callReturns hT hq hw1 (head_stay stay hnames hw) hlen hgives
      obtain ⟨F₂, hF₂⟩ := hgives
      refine ⟨max F₁ F₂ + 1, fun fuel hfuel => ?_⟩
      obtain ⟨f, rfl⟩ : ∃ f, fuel = f + 1 := ⟨fuel - 1, by omega⟩
      obtain ⟨r, hr⟩ := hF₁ f (by omega) v hv
      obtain ⟨out, hout, hchild⟩ := hF₂ f (by omega) f (by omega) r.2
        ((openNext_keeps _ _ _ _ _ hr).trans hv)
      rw [List.length_cons, heq, hparent, hr, Option.bind_some, hout, Option.map_some, hres, hchild]
      exact ⟨_, rfl⟩

/-- When the call returns what the path means. -/
lemma calls_iff {node : Node} (hT : Tree N) (hv : v.nodes = N) (hp : N.get start = some node)
    (hnames : ∀ w ∈ names, IsName w) (hne : front up stay ++ names ≠ []) :
    Calls N start trail (front up stay ++ names) v ↔ Opens N start trail up stay names := by
  cases up with
  | false => exact calls_stay_iff hT hv hp hnames hne
  | true =>
    have hfront : front true stay ++ names = ['.', '.'] :: (front false stay ++ names) := rfl
    have hparent : parentOf N start = node.parent := by rw [parentOf, hp, Option.bind_some]
    rw [hfront]
    by_cases hrest : front false stay ++ names = []
    · obtain ⟨hstay, rfl⟩ := List.append_eq_nil_iff.mp hrest
      obtain rfl : stay = false := by
        cases stay with
        | false => rfl
        | true => simp [front] at hstay
      rw [hrest, calls_up_alone_iff hT hv hp]
      simp [Opens]
    · rw [calls_up_iff hT hv hp hnames hrest]
      constructor
      · rintro ⟨hnil, p, hq, hfound⟩
        exact .inr ⟨hnil, p, hparent.trans hq, hfound⟩
      · rintro (⟨rfl, -, hnot, -⟩ | ⟨hnil, p, hq, hfound⟩)
        · cases stay with
          | false => exact absurd rfl hrest
          | true => exact absurd ⟨rfl, rfl⟩ hnot
        · exact ⟨hnil, p, hparent.symm.trans hq, hfound⟩

/-! ## The call of `open` -/

/-- The text of a path: its components with slashes between them, and a slash in front or at
the end. -/
def pathText (lead trail : Bool) (comps : List (List Char)) : List Char :=
  List.intercalate ['/'] ((if lead then [[]] else []) ++ pathArray trail comps)

/-- A component as it may stand in a path. -/
def IsComponent (w : List Char) : Prop := w ≠ [] ∧ '/' ∉ w ∧ ' ' ∉ w

lemma stripFront_cons {w : List Char} (h : w ≠ []) (ws : List (List Char)) :
    stripFront (w :: ws) = some (w :: ws) := by
  rw [stripFront, if_neg h]

lemma stripFront_pathArray {comps : List (List Char)} (hne : comps ≠ [])
    (hcomps : ∀ w ∈ comps, IsComponent w) (lead : Bool) :
    stripFront ((if lead then [[]] else []) ++ pathArray trail comps) =
      some (pathArray trail comps) := by
  obtain ⟨w, rest, rfl⟩ := List.exists_cons_of_ne_nil hne
  have hw : w ≠ [] := (hcomps w List.mem_cons_self).1
  have hstrip : stripFront (pathArray trail (w :: rest)) = some (pathArray trail (w :: rest)) :=
    stripFront_cons hw _
  cases lead with
  | false => exact hstrip
  | true =>
    have hlead : stripFront ([] :: pathArray trail (w :: rest)) =
        some (pathArray trail (w :: rest)) := by
      rw [stripFront, if_pos rfl, hstrip]
    exact hlead

lemma stripBack_pathArray {comps : List (List Char)} (hne : comps ≠ [])
    (hcomps : ∀ w ∈ comps, IsComponent w) :
    stripBack (pathArray trail comps) (pathArray trail comps).length = some comps.length := by
  have hback : stripBack (pathArray trail comps) comps.length = some comps.length := by
    obtain ⟨n, hn⟩ : ∃ n, comps.length = n + 1 :=
      Nat.exists_eq_succ_of_ne_zero (by simpa using hne)
    obtain ⟨w, hw⟩ : ∃ w, comps[n]? = some w := ⟨_, List.getElem?_eq_getElem (by omega)⟩
    have hword : (pathArray trail comps)[n]? = some w := by
      rw [pathArray, List.getElem?_append_left (by omega), hw]
    rw [hn, stripBack, hword, Option.bind_some, if_neg (hcomps w (List.mem_of_getElem? hw)).1]
  cases trail with
  | false => simpa [pathArray] using hback
  | true =>
    have hlen : (pathArray true comps).length = comps.length + 1 := by simp [pathArray]
    have hlast : (pathArray true comps)[comps.length]? = some [] := by simp [pathArray]
    rw [hlen, stripBack, hlast, Option.bind_some, if_pos rfl, hback]

lemma mem_intercalate {c : Char} {ws : List (List Char)} (h : c ∈ List.intercalate ['/'] ws) :
    c = '/' ∨ ∃ w ∈ ws, c ∈ w := by
  induction ws with
  | nil => simp at h
  | cons w ws ih =>
    cases ws with
    | nil => exact .inr ⟨w, by simp, by simpa using h⟩
    | cons w' ws =>
      rw [List.intercalate_cons_cons, List.append_assoc, List.singleton_append, List.mem_append,
        List.mem_cons] at h
      rcases h with hw | hslash | hrest
      · exact .inr ⟨w, by simp, hw⟩
      · exact .inl hslash
      · rcases ih hrest with hslash | ⟨u, hu, hc⟩
        · exact .inl hslash
        · exact .inr ⟨u, List.mem_cons_of_mem _ hu, hc⟩

lemma subset_intercalate {w : List Char} {ws : List (List Char)} (h : w ∈ ws) :
    w ⊆ List.intercalate ['/'] ws := by
  induction ws with
  | nil => simp at h
  | cons u ws ih =>
    cases ws with
    | nil =>
      obtain rfl : w = u := by simpa using h
      simp
    | cons u' ws =>
      rw [List.intercalate_cons_cons]
      rcases List.mem_cons.mp h with rfl | h
      · intro c hc
        simp [hc]
      · intro c hc
        exact List.mem_append_right _ (ih h hc)

lemma space_notMem_pathText {comps : List (List Char)} (lead : Bool)
    (hcomps : ∀ w ∈ comps, IsComponent w) : ' ' ∉ pathText lead trail comps := by
  intro h
  rcases mem_intercalate h with hslash | ⟨w, hw, hc⟩
  · exact absurd hslash (by decide)
  · have hmem : w = [] ∨ w ∈ comps := by
      cases lead <;> cases trail <;> simp [pathArray] at hw <;> tauto
    rcases hmem with rfl | hmem
    · simp at hc
    · exact (hcomps w hmem).2.2 hc

lemma pathText_ne_slash {comps : List (List Char)} (lead : Bool) (hne : comps ≠ [])
    (hcomps : ∀ w ∈ comps, IsComponent w) : pathText lead trail comps ≠ ['/'] := by
  intro heq
  obtain ⟨w, rest, rfl⟩ := List.exists_cons_of_ne_nil hne
  obtain ⟨hw, hslash, -⟩ := hcomps w List.mem_cons_self
  obtain ⟨c, rest', rfl⟩ := List.exists_cons_of_ne_nil hw
  have hmem : c ∈ pathText lead trail ((c :: rest') :: rest) :=
    subset_intercalate (w := c :: rest') (by simp [pathArray]) List.mem_cons_self
  rw [heq, List.mem_singleton] at hmem
  exact hslash (by simp [hmem])

lemma splitWords_pathText {comps : List (List Char)} {fuel : ℕ} (lead : Bool) (hne : comps ≠ [])
    (hcomps : ∀ w ∈ comps, IsComponent w) (hfuel : comps.length + 2 ≤ fuel) :
    Str.splitWords ['/'] fuel (pathText lead trail comps) =
      some ((if lead then [[]] else []) ++ pathArray trail comps) := by
  refine Str.splitWords_intercalate ?_ ?_ ?_
  · simp [pathArray, hne]
  · intro w hw
    have hmem : w = [] ∨ w ∈ comps := by
      cases lead <;> cases trail <;> simp [pathArray] at hw <;> tauto
    rcases hmem with rfl | hmem
    · simp
    · exact (hcomps w hmem).2.1
  · cases lead <;> cases trail <;> simp [pathArray] <;> omega

/-- `open` starts at the node: it is given, or it is the one that `tfs_root` leads to. -/
def StartsAt (v : FileSystem) (parent : Option ℕ) (start : ℕ) : Prop :=
  parent = some start ∨
    (parent = none ∧ (v.deref v.tfs_root).map Node.ptr = some (some start))

lemma startsAt_parentNode (v : FileSystem) (start : ℕ) : ∀ parent, StartsAt v parent start →
    (match parent with
      | none => (v.lock.deref v.lock.tfs_root).map Node.ptr
      | some p => some (some p)) = some (some start) := by
  rintro parent (rfl | ⟨rfl, hroot⟩)
  · rfl
  · exact hroot

/-- `open` and `create` split a path and strip the array; with enough fuel what is left are the
components of the path. -/
lemma split_pathText {α : Type*} {comps : List (List Char)} {fuel : ℕ} (lead : Bool)
    (hne : comps ≠ [])
    (hcomps : ∀ w ∈ comps, IsComponent w) (hfuel : comps.length + 2 ≤ fuel) (o : Option α)
    (f : List (List Char) → ℕ → Option α) :
    ((Str.strsplit_count fuel true (pathText lead trail comps) ['/']).bind fun words =>
      match words with
      | none => o
      | some words => (stripFront words).bind fun words =>
          (stripBack words words.length).bind fun items => f words items) =
      f (pathArray trail comps) comps.length := by
  have hsplit : Str.splitWords ['/'] fuel (pathText lead trail comps) =
      some ((if lead then [[]] else []) ++ pathArray trail comps) :=
    splitWords_pathText lead hne hcomps hfuel
  rw [Str.strsplit_count, hsplit]
  dsimp only [Option.map_some, Option.bind_some, if_true]
  rw [if_pos rfl]
  dsimp only
  rw [stripFront_pathArray hne hcomps, Option.bind_some, stripBack_pathArray hne hcomps,
    Option.bind_some]

/-- With enough fuel `open` calls `openNext` with the components of the path. -/
lemma vfsOpen_eq {comps : List (List Char)} {parent : Option ℕ} {fuel : ℕ} (lead : Bool)
    (hlock : v.locked = false) (hstart : StartsAt v parent start) (hne : comps ≠ [])
    (hcomps : ∀ w ∈ comps, IsComponent w) (hfuel : comps.length + 2 ≤ fuel) :
    vfsOpen fuel true parent (some (pathText lead trail comps)) v =
      openNext (pathArray trail comps) fuel ⟨some start, none, comps.length, 0⟩
        v.lock := by
  have hslash : pathText lead trail comps ≠ ['/'] := pathText_ne_slash lead hne hcomps
  have hspace : ' ' ∉ pathText lead trail comps := space_notMem_pathText lead hcomps
  have hlocked : vfsOpen.openLocked fuel true parent v (pathText lead trail comps) =
      openNext (pathArray trail comps) fuel ⟨some start, none, comps.length, 0⟩
        v.lock := by
    rw [vfsOpen.openLocked, if_neg (by simp [hlock])]
    dsimp only
    rw [if_neg hspace]
    refine (congrArg (Option.bind · _) (startsAt_parentNode v start parent hstart)).trans ?_
    rw [Option.bind_some, if_neg (by simp), if_neg hslash]
    exact split_pathText lead hne hcomps hfuel _ _
  rw [vfsOpen]
  split
  · rw [Option.bind_some, if_neg hslash, hlocked]
  · exact hlocked

/-- With enough fuel `open` returns the given node, or a null pointer. -/
def OpensTo (v : FileSystem) (parent : Option ℕ) (path : List Char) (result : Option ℕ) : Prop :=
  ∃ F, ∀ fuel ≥ F, ∃ v', vfsOpen fuel true parent (some path) v = some (result, v')

lemma opensTo_iff_calls {comps : List (List Char)} {parent : Option ℕ} (lead : Bool)
    (hlock : v.locked = false) (hstart : StartsAt v parent start) (hne : comps ≠ [])
    (hcomps : ∀ w ∈ comps, IsComponent w) :
    OpensTo v parent (pathText lead trail comps) (resolve v.nodes start comps) ↔
      Calls v.nodes start trail comps v.lock := by
  constructor
  · rintro ⟨F, hF⟩
    refine ⟨max F (comps.length + 2), fun fuel hfuel => ?_⟩
    rw [← vfsOpen_eq lead hlock hstart hne hcomps (by omega)]
    exact hF fuel (by omega)
  · rintro ⟨F, hF⟩
    refine ⟨max F (comps.length + 2), fun fuel hfuel => ?_⟩
    rw [vfsOpen_eq lead hlock hstart hne hcomps (by omega)]
    exact hF fuel (by omega)

/-- The components are at most one `..`, at most one `.`, and names, and what they mean is
returned. -/
def PathOpens (N : Store Node) (start : ℕ) (trail : Bool) (comps : List (List Char)) : Prop :=
  ∃ up stay names, comps = front up stay ++ names ∧ (∀ w ∈ names, IsName w) ∧
    Opens N start trail up stay names

/-- The components are at most one `..`, at most one `.`, and names. -/
def DotsInFront (comps : List (List Char)) : Prop :=
  ∃ up stay names, comps = front up stay ++ names ∧ ∀ w ∈ names, IsName w

lemma opensTo_iff {comps : List (List Char)} {parent : Option ℕ} {node : Node} (lead : Bool)
    (hT : Tree v.nodes) (hlock : v.locked = false) (hstart : StartsAt v parent start)
    (hp : v.nodes.get start = some node) (hne : comps ≠ []) (hcomps : ∀ w ∈ comps, IsComponent w)
    (heq : comps = front up stay ++ names) (hnames : ∀ w ∈ names, IsName w) :
    OpensTo v parent (pathText lead trail comps) (resolve v.nodes start comps) ↔
      Opens v.nodes start trail up stay names := by
  rw [opensTo_iff_calls lead hlock hstart hne hcomps]
  subst heq
  exact calls_iff hT rfl hp hnames hne

/-- `open` returns the node that a path means, or a null pointer if there is none, if the path
satisfies `PathOpens`; and for a path whose dots are in front, only then. -/
theorem open_resolves {comps : List (List Char)} {parent : Option ℕ} {node : Node}
    (lead trail : Bool) (hT : Tree v.nodes) (hlock : v.locked = false)
    (hstart : StartsAt v parent start) (hp : v.nodes.get start = some node) (hne : comps ≠ [])
    (hcomps : ∀ w ∈ comps, IsComponent w) :
    (PathOpens v.nodes start trail comps →
      OpensTo v parent (pathText lead trail comps) (resolve v.nodes start comps)) ∧
    (DotsInFront comps →
      OpensTo v parent (pathText lead trail comps) (resolve v.nodes start comps) →
        PathOpens v.nodes start trail comps) := by
  constructor
  · rintro ⟨up, stay, names, heq, hnames, hopens⟩
    exact (opensTo_iff lead hT hlock hstart hp hne hcomps heq hnames).mpr hopens
  · rintro ⟨up, stay, names, heq, hnames⟩ hopens
    exact ⟨up, stay, names, heq, hnames,
      (opensTo_iff lead hT hlock hstart hp hne hcomps heq hnames).mp hopens⟩

/-! ## A small tree -/

/-- A directory with two children `a` and `b`, and a child `c` of `b`. -/
def smallTree : Store Node :=
  (((Store.empty.alloc { name := [], childs := ⟨true, [1, 2]⟩ }).alloc
    { name := ['a'], parent := some 0 }).alloc
    { name := ['b'], parent := some 0, childs := ⟨true, [3]⟩ }).alloc
    { name := ['c'], parent := some 2 }

lemma smallTree_none {n : ℕ} (h : 4 ≤ n) : smallTree.get n = none := smallTree.fresh n h

lemma smallTree_isChild {n c : ℕ} (h : IsChild smallTree n c) :
    (n = 0 ∧ (c = 1 ∨ c = 2)) ∨ (n = 2 ∧ c = 3) := by
  by_cases hn : n < 4
  · interval_cases n <;> simp [IsChild, children, smallTree, Store.get_alloc] at h ⊢ <;> exact h
  · simp [IsChild, children, smallTree_none (by omega : 4 ≤ n)] at h

lemma smallTree_tree : Tree smallTree where
  depth := by
    refine ⟨fun n => if n = 0 then 0 else if n = 3 then 2 else 1, fun n c h => ?_⟩
    rcases smallTree_isChild h with ⟨rfl, rfl | rfl⟩ | ⟨rfl, rfl⟩ <;> rfl
  child := by
    intro n c h
    rcases smallTree_isChild h with ⟨rfl, rfl | rfl⟩ | ⟨rfl, rfl⟩ <;> rfl
  parent := by
    intro n p h
    by_cases hn : n < 4
    · interval_cases n <;> simp [parentOf, smallTree, Store.get_alloc] at h <;> subst h <;>
        simp [IsChild, children, smallTree, Store.get_alloc]
    · simp [parentOf, smallTree_none (by omega : 4 ≤ n)] at h
  nodup := by
    intro n
    by_cases hn : n < 4
    · interval_cases n <;> decide
    · simp [children, smallTree_none (by omega : 4 ≤ n)]
  plain := by
    intro n node h
    by_cases hn : n < 4
    · interval_cases n <;> simp [smallTree, Store.get_alloc] at h <;> subst h <;> decide
    · simp [smallTree_none (by omega : 4 ≤ n)] at h

lemma smallTree_start : StartsAt { nodes := smallTree } (some 0) 0 := .inl rfl

lemma smallTree_get : smallTree.get 0 = some { name := [], childs := ⟨true, [1, 2]⟩ } := rfl

/-- The path `b` is opened. -/
theorem open_resolves_smallTree :
    OpensTo { nodes := smallTree } (some 0) (pathText false false [['b']]) (some 2) := by
  have hcomps : ∀ w ∈ [['b']], IsComponent w := by simp [IsComponent]
  refine (open_resolves false false smallTree_tree rfl smallTree_start smallTree_get (by simp)
    hcomps).1 ?_
  refine ⟨false, false, [['b']], rfl, by simp [IsName], .inr ⟨by simp, 0, rfl, .inr ⟨2, ?_⟩⟩⟩
  exact ⟨1, 2, by omega, rfl, rfl, rfl, by decide⟩

/-- The path `b/c` is not opened: `b` is the second child, and `c` is the first one of `b`, so
`open` returns `b`. -/
theorem open_misses_second_component :
    resolve smallTree 0 [['b'], ['c']] = some 3 ∧
    (vfsOpen 9 true (some 0) (some (pathText false false [['b'], ['c']]))
      { nodes := smallTree }).map (·.1) = some (some 2) ∧
    ¬ OpensTo { nodes := smallTree } (some 0) (pathText false false [['b'], ['c']])
      (resolve smallTree 0 [['b'], ['c']]) := by
  refine ⟨by decide, by decide +kernel, fun h => ?_⟩
  have hcomps : ∀ w ∈ [['b'], ['c']], IsComponent w := by simp [IsComponent]
  have hfront : [['b'], ['c']] = front false false ++ [['b'], ['c']] := rfl
  have hopens := (opensTo_iff false smallTree_tree rfl smallTree_start smallTree_get (by simp)
    hcomps hfront (by simp [IsName])).mp h
  rcases hopens with ⟨hnil, -⟩ | ⟨-, p, hp, hchildren | ⟨n, j, x, -, hx, hname, hrest⟩⟩
  · simp at hnil
  · obtain rfl := Option.some.inj hp
    exact absurd hchildren (by decide)
  · obtain rfl := Option.some.inj hp
    -- `b` stands at position 1, so `c` would have to stand behind
    have hx2 : x = 2 := Option.some.inj (hname.symm.trans (by decide))
    subst hx2
    obtain ⟨j', y, hj', hy, -⟩ := hrest
    have hlen : j' < 1 := (List.getElem?_eq_some_iff.mp hy).1
    obtain rfl : j = 0 := by omega
    exact absurd hx (by decide)

end TurbOS.Vfs
