import LinkDiscovery.Proofs.Specification.Nodes
/-!
Paths as addresses of leaves. A path is read back as the steps that it is written with, and these lead from
the root to the leaf that the path is listed with, past the operators that the path names.
-/

namespace LinkDiscovery.Specification

/-- The side on which a step goes down. -/
inductive Side where
  | left
  | right
  deriving DecidableEq

def Side.text : Side → String
  | left => "left"
  | right => "right"

/-- A step down from a node with an operator. -/
structure Step where
  operator : Operator
  side : Side
  deriving DecidableEq

namespace Step

def all : List Step :=
  Operator.all.flatMap fun o => [⟨o, .left⟩, ⟨o, .right⟩]

def text (d : Step) : String :=
  s!": {d.operator.text}->{d.side.text}"

/-- What is written behind the colon that a step begins with. -/
def body (d : Step) : List Char :=
  d.text.toList.tail

/-- The step with this text behind its colon. -/
def ofBody? (part : List Char) : Option Step :=
  all.find? fun d => d.body = part

/-- The child that a step leads to, if the node has the operator of the step. -/
def next? (s : Specification) (d : Step) : Option Specification :=
  if s.label.operator = some d.operator then
    match d.side with
    | .left => s.children[0]?
    | .right => s.children[1]?
  else none

theorem ofBody?_body (d : Step) : ofBody? d.body = some d := by
  obtain ⟨o, side⟩ := d
  cases o <;> cases side <;> rfl

theorem colon_not_mem_body (d : Step) : ':' ∉ d.body := by
  obtain ⟨o, side⟩ := d
  cases o <;> cases side <;> decide

theorem toList_text (d : Step) : d.text.toList = ':' :: d.body := by
  obtain ⟨o, side⟩ := d
  cases o <;> cases side <;> rfl

end Step

/-- The path that steps are written as. -/
def pathOf (steps : List Step) : String :=
  String.join (steps.map Step.text)

/-- The steps that a path is written with. -/
def stepsOf? (path : String) : Option (List Step) :=
  match path.toList.splitOn ':' with
  | [] :: parts => parts.mapM Step.ofBody?
  | _ => none

/-- The node that steps lead to. -/
def descend (s : Specification) (steps : List Step) : Option Specification :=
  steps.foldlM Step.next? s

/-- The node that a path leads to. -/
def follow (s : Specification) (path : String) : Option Specification :=
  (stepsOf? path).bind s.descend

/-! Paths as texts. -/

theorem splitOn_steps {part : List Char} (hpart : ':' ∉ part) (steps : List Step) :
    (part ++ (pathOf steps).toList).splitOn ':' = part :: steps.map Step.body := by
  induction steps generalizing part with
  | nil => simpa [pathOf] using List.splitOn_eq_singleton hpart
  | cons d steps ih =>
      have htext : (pathOf (d :: steps)).toList = ':' :: (d.body ++ (pathOf steps).toList) := by
        simp [pathOf, String.toList_join, d.toList_text]
      rw [htext, List.splitOn_append_cons_self_of_not_mem hpart, ih d.colon_not_mem_body, List.map_cons]

theorem mapM_body (steps : List Step) : (steps.map Step.body).mapM Step.ofBody? = some steps := by
  induction steps with
  | nil => rfl
  | cons d steps ih => simp [List.mapM_cons, d.ofBody?_body, ih]

/-- A path is read back as its steps. -/
theorem stepsOf?_pathOf (steps : List Step) : stepsOf? (pathOf steps) = some steps := by
  have hparts := splitOn_steps (List.not_mem_nil : ':' ∉ []) steps
  rw [List.nil_append] at hparts
  rw [stepsOf?, hparts]
  exact mapM_body steps

theorem pathOf_step (path : String) (d : Step) (steps : List Step) :
    path ++ d.text ++ pathOf steps = path ++ pathOf (d :: steps) := by
  simp [pathOf, String.append_assoc]

theorem pathOf_injective : Function.Injective pathOf := fun a b h =>
  Option.some.inj ((stepsOf?_pathOf a).symm.trans (h ▸ stepsOf?_pathOf b))

/-! Paths of leaves. -/

mutual

/-- Paths are listed with the leaves, in the same order. -/
theorem map_snd_pathsFrom (path : String) : ∀ s, (pathsFrom path s).map Prod.snd = s.leaves
  | node l [] => by rw [pathsFrom, leaves, List.map_singleton]
  | node l (c :: cs) => by
      rw [pathsFrom, leaves, List.map_append, map_snd_pathsFrom _ c, map_snd_pathsFromAll _ cs]

theorem map_snd_pathsFromAll (path : String) :
    ∀ ss, (pathsFromAll path ss).map Prod.snd = leavesOf ss
  | [] => rfl
  | s :: ss => by
      rw [pathsFromAll, leavesOf, List.map_append, map_snd_pathsFrom path s, map_snd_pathsFromAll path ss]

end

variable {text path : String} {θ : Float}

/-- The two steps down from a compound. -/
theorem pathsFrom_node (path : String) (c : Compound) (left right : Outline) (θ : Float) :
    pathsFrom path (ofOutline (.node c left right) θ) =
      pathsFrom (path ++ Step.text ⟨c.keyword.operator, .left⟩) (ofOutline left (c.thresholds θ).1) ++
        pathsFrom (path ++ Step.text ⟨c.keyword.operator, .right⟩)
          (ofOutline right (c.thresholds θ).2) := by
  simp only [ofOutline, ofCompound, pathsFrom, pathsFromAll, List.append_nil]
  rfl

theorem next?_left (c : Compound) (left right : Specification) (θ : Float) :
    Step.next? (ofCompound c θ left right) ⟨c.keyword.operator, .left⟩ = some left := by
  simp [Step.next?, ofCompound, label, children]

theorem next?_right (c : Compound) (left right : Specification) (θ : Float) :
    Step.next? (ofCompound c θ left right) ⟨c.keyword.operator, .right⟩ = some right := by
  simp [Step.next?, ofCompound, label, children]

/-- Every path goes on with the steps that lead to its leaf. -/
theorem exists_steps {o : Outline} {p : String × Specification}
    (hp : p ∈ pathsFrom path (ofOutline o θ)) :
    ∃ steps, p.1 = path ++ pathOf steps ∧ (ofOutline o θ).descend steps = some p.2 := by
  induction o generalizing path θ with
  | leaf spelling call =>
      obtain rfl := List.mem_singleton.mp hp
      exact ⟨[], by simp [pathOf], rfl⟩
  | node c left right ihl ihr =>
      rw [pathsFrom_node, List.mem_append] at hp
      rcases hp with hp | hp
      · obtain ⟨steps, htext, hsteps⟩ := ihl hp
        refine ⟨⟨c.keyword.operator, .left⟩ :: steps, htext.trans (pathOf_step _ _ _), ?_⟩
        rw [descend, List.foldlM_cons, ofOutline, next?_left]
        exact hsteps
      · obtain ⟨steps, htext, hsteps⟩ := ihr hp
        refine ⟨⟨c.keyword.operator, .right⟩ :: steps, htext.trans (pathOf_step _ _ _), ?_⟩
        rw [descend, List.foldlM_cons, ofOutline, next?_right]
        exact hsteps

/-- Paths part where they go down on different sides of a node. -/
theorem paths_nodup (o : Outline) (path : String) (θ : Float) :
    ((pathsFrom path (ofOutline o θ)).map Prod.fst).Nodup := by
  induction o generalizing path θ with
  | leaf spelling call => exact List.nodup_singleton path
  | node c left right ihl ihr =>
      rw [pathsFrom_node, List.map_append]
      refine (ihl _ _).append (ihr _ _) fun x hl hr => ?_
      obtain ⟨p, hp, rfl⟩ := List.mem_map.mp hl
      obtain ⟨q, hq, heq⟩ := List.mem_map.mp hr
      obtain ⟨steps, htext, -⟩ := exists_steps hp
      obtain ⟨steps', htext', -⟩ := exists_steps hq
      rw [htext, htext', pathOf_step, pathOf_step] at heq
      cases pathOf_injective (String.append_right_inj path |>.mp heq)

/-- Paths address leaves: they are listed with the leaves in the order of these, all paths are different,
and each of them leads from the root to the leaf that it is listed with. -/
theorem leafPaths_address {s : Specification} (hs : parse text θ = .ok s) :
    s.leafPaths.map Prod.snd = s.leaves ∧ (s.leafPaths.map Prod.fst).Nodup ∧
      ∀ p ∈ s.leafPaths, s.follow p.1 = some p.2 := by
  obtain ⟨o, -, -, rfl⟩ := parse_eq_ok.mp hs
  refine ⟨map_snd_pathsFrom "" _, paths_nodup o "" θ, fun p hp => ?_⟩
  obtain ⟨steps, htext, hsteps⟩ := exists_steps hp
  rw [String.empty_append] at htext
  rw [follow, htext, stepsOf?_pathOf, Option.bind_some, hsteps]

/-- Equal leaves at different places, under operators that are alike. -/
theorem leafPaths_address_sample :
    let text := "MIN(OR(a(x,y)|1, a(x,y)|1)|0.5, AND(a(x,y)|1, MINUS(b(x)|1, b(x)|1)|0)|0.5)"
    ∃ s, parse text 0.5 = .ok s ∧ s.leafPaths.map Prod.snd = s.leaves ∧
      (s.leafPaths.map Prod.fst).Nodup ∧ (∀ p ∈ s.leafPaths, s.follow p.1 = some p.2) ∧
        s.leafPaths.map Prod.fst = [": AND->left: OR->left", ": AND->left: OR->right",
          ": AND->right: AND->left", ": AND->right: AND->right: MINUS->left",
          ": AND->right: AND->right: MINUS->right"] := by
  intro text
  have hpaths : (parse text 0.5).toOption.map (·.leafPaths.map Prod.fst) =
      some [": AND->left: OR->left", ": AND->left: OR->right", ": AND->right: AND->left",
        ": AND->right: AND->right: MINUS->left", ": AND->right: AND->right: MINUS->right"] := by
    decide +kernel
  cases hs : parse text 0.5 with
  | error fault => simp [hs, Except.toOption] at hpaths
  | ok s =>
      rw [hs] at hpaths
      obtain ⟨hleaves, hnodup, hfollow⟩ := leafPaths_address hs
      exact ⟨s, rfl, hleaves, hnodup, hfollow, Option.some.inj hpaths⟩

end LinkDiscovery.Specification
