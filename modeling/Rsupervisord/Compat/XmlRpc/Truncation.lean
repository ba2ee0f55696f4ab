import Rsupervisord.Compat.XmlRpc.CutValues

/-!
# Method calls that are cut

A method call that is cut between two tags is a method call with the parameters up to there, of
which the last one may be shorter. Only a tag or a text that is cut, a missing method name, a
parameter without a value and a member without a name are errors.

## Main definitions

* `FaultsOrAgrees`: a document is rejected, or read like another one.
* `IsHarmlessCut`: the cuts of a method call that are errors or change nothing.

## Main results

* `parse_cut_iff`: a method call that is cut is rejected or read as the method call exactly for
  these cuts.
-/

namespace Rsupervisord

namespace XmlRpc

open Xml XmlReader

variable {C : Codecs}

/-! ### Parameters that are cut -/

section Params

variable {s s' : C.xml.State} {opened : List String} {ts ts' : List Token} {r : List Char}
  {n fuel : ℕ} {v : Value}

/-- A cut in a parameter. -/
theorem cut_param (hR : C.xml.Cuts) (hd : C.ReadsDoubles) (hv : v.IsOrdered)
    (hsplit : tok (.start "value") ::
      ((v.tokens C ++ [tok (.close "value")]) ++ [tok (.close "param")]) = ts ++ ts')
    (hcut : Cut r ts') (h : C.xml.At s ("param" :: opened) (text ts ++ r) fuel) :
    CutOutcome C fuel (tok (.start "param") :: ts) r (parseParamValue C fuel s none)
      (fun w => w = v.readBack C ↔ LosesNothing (tok (.start "param") :: ts) ts') := by
  have hvalue : isName "value" = true := by decide
  have hparam : isName "param" = true := by decide
  obtain ⟨rfl, rfl⟩ | ⟨ts, rfl, hrest⟩ := List.cons_eq_append_iff.mp hsplit
  · obtain ⟨n, rfl, hends⟩ := hR.tag h (cut_cons.mp hcut) rfl hvalue (Markup.start_ne_leaf _)
    exact .inl ⟨.inr (.inl rfl), parseParamValue_unfinished hends⟩
  obtain ⟨n, s₁, rfl, hread, h₁⟩ := h.startToken rfl rfl hvalue
  have hstep : parseParamValue C (n + 1) s none = (parseValueElement C n s₁ none >>= fun p =>
      parseParamValue C n p.2 (some p.1)) := by
    rw [parseParamValue, hread]
    rfl
  have hneutral : IsNeutral (tok (.start "value")).markup := isNeutral_start (by decide) (by decide)
  rw [hstep]
  obtain ⟨u, hu, hval, rfl⟩ | ⟨u, rfl, hmore⟩ := append_split hrest
  · -- The value is cut.
    have hlast : last u = some (.close "value") := by
      rw [← last_append ts hu, ← hval, last_append _ (List.cons_ne_nil _ _)]
      rfl
    have hout := cutReads hR hd hv hval (cut_of_append hu hcut) h₁
    apply hout.bind (unfinished_append [tok (.start "param")] hneutral)
    intro _ _ w s₂ opened₂ hs₂ hw
    obtain ⟨m, s₃, rfl, heof, h₃⟩ := hR.blank hs₂ rfl
    refine ⟨w, s₃, _, parseParamValue_eof heof w, h₃.mono (Nat.le_succ _), ?_⟩
    have hlost := (losesNothing_append [tok (.start "param")] hneutral).trans
      (losesNothing_close ts [tok (.close "param")] hlast)
    have hend : ∀ t ∈ [tok (.close "param")], IsClosing t.markup := by decide
    rw [and_iff_left hend, ← hw] at hlost
    exact hlost.symm
  · obtain ⟨rfl, rfl⟩ := eq_of_singleton hmore hcut
    have htokens : v.tokens C ++ [tok (.close "value")] ++ [] =
        v.tokens C ++ tok (.close "value") :: [] := List.append_nil _
    rw [htokens] at h₁ ⊢
    obtain ⟨s₂, hparse, h₂⟩ := reads_tokens (reads_readBack hR hd hv) hv h₁
    rw [hparse]
    obtain ⟨n, rfl, hends⟩ := hR.tag h₂ (cut_cons.mp hcut) rfl hparam (Markup.close_ne_leaf _)
    have hlast := last_append (tok (.start "param") :: tok (.start "value") :: v.tokens C)
      (List.cons_ne_nil (tok (.close "value")) [])
    have hclosing : ∀ t ∈ [tok (.close "param")], ∃ name, t.markup = .close name := by
      intro t ht
      exact ⟨"param", List.mem_singleton.mp ht ▸ rfl⟩
    exact (parseParamValue_ends hends _ (not_unfinished_of_last hlast (isNeutral_close _))
      (iff_of_true rfl (losesNothing_of_closing hclosing))).mono (Nat.le_succ _)

/-- A call without parameters has nothing but closing tags. -/
theorem closing_paramTokens {values : List Value} :
    (∀ t ∈ paramTokens C values ++ [tok (.close "params")], IsClosing t.markup) ↔ values = [] := by
  have hclosing : ∀ t ∈ [tok (.close "params")], IsClosing t.markup := by decide
  cases values with
  | nil => exact iff_of_true hclosing rfl
  | cons v values =>
    exact iff_of_false (fun h => absurd (h _ List.mem_cons_self) (by decide)) (List.cons_ne_nil _ _)

/-- A cut in the parameters. -/
theorem cut_params (hR : C.xml.Cuts) (hd : C.ReadsDoubles) {values : List Value}
    (hordered : ∀ v ∈ values, v.IsOrdered) (acc : List Value)
    (hsplit : paramTokens C values ++ [tok (.close "params")] = ts ++ ts') (hcut : Cut r ts')
    (h : C.xml.At s ("params" :: opened) (text ts ++ r) fuel) :
    CutOutcome C fuel ts r (parseParams C fuel s acc)
      (fun a => a = acc ++ values.map (Value.readBack C) ↔ LosesNothing ts ts') := by
  induction values generalizing s ts fuel acc with
  | nil =>
    have hparams : isName "params" = true := by decide
    have hclosing : ∀ t ∈ [tok (.close "params")], ∃ name, t.markup = .close name := by
      intro t ht
      exact ⟨"params", List.mem_singleton.mp ht ▸ rfl⟩
    obtain ⟨rfl, rfl⟩ := eq_of_singleton hsplit hcut
    obtain ⟨n, rfl, hends⟩ := hR.tag h (cut_cons.mp hcut) rfl hparams (Markup.close_ne_leaf _)
    exact parseParams_ends hends acc not_unfinished_nil
      (iff_of_true (List.append_nil acc).symm (losesNothing_of_closing hclosing))
  | cons v values ih =>
    have hparam : isName "param" = true := by decide
    have hv := hordered v List.mem_cons_self
    set tail := paramTokens C values ++ [tok (.close "params")] with htail
    have hsplit' : tok (.start "param") :: ((tok (.start "value") ::
        ((v.tokens C ++ [tok (.close "value")]) ++ [tok (.close "param")])) ++ tail) =
        ts ++ ts' := by
      rw [← hsplit, htail, paramTokens]
      simp
    obtain ⟨rfl, rfl⟩ | ⟨ts, rfl, hrest⟩ := List.cons_eq_append_iff.mp hsplit'
    · obtain ⟨n, rfl, hends⟩ := hR.tag h (cut_cons.mp hcut) rfl hparam (Markup.start_ne_leaf _)
      apply parseParams_ends hends acc not_unfinished_nil
      refine iff_of_false ?_ (not_losesNothing_cons (by decide) (by decide) fun _ => last_nil_ne)
      simp
    obtain ⟨n, s₁, rfl, hread, h₁⟩ := h.startToken rfl rfl hparam
    have hstep : parseParams C (n + 1) s acc = (parseParamValue C n s₁ none >>= fun p =>
        parseParams C n p.2 (acc ++ [p.1])) := by
      rw [parseParams, hread]
      rfl
    rw [hstep]
    obtain ⟨u, hu, hvalue, rfl⟩ | ⟨u, rfl, hmore⟩ := append_split hrest
    · -- The parameter is cut.
      have hlast : last u = some (.close "param") := by
        rw [← last_append ts hu, ← hvalue]
        exact last_append (tok (.start "value") :: (v.tokens C ++ [tok (.close "value")]))
          (List.cons_ne_nil (tok (.close "param")) [])
      have hout := cut_param hR hd hv hvalue (cut_of_append hu hcut) h₁
      apply hout.bind Iff.rfl
      intro _ _ w s₂ opened₂ hs₂ hw
      obtain ⟨n, s₃, rfl, heof, h₃⟩ := hR.blank hs₂ rfl
      refine ⟨_, s₃, _, parseParams_eof heof _, h₃.mono (Nat.le_succ _), ?_⟩
      rw [losesNothing_close _ _ hlast, ← hw, htail, closing_paramTokens,
        List.append_cancel_left_eq, List.map_cons, List.cons.injEq, eq_comm (a := []),
        List.map_eq_nil_iff]
    · have htext : text (tok (.start "value") ::
          ((v.tokens C ++ [tok (.close "value")]) ++ [tok (.close "param")]) ++ u) ++ r =
            element "value" (content C v) ++ (endTag "param" ++ (text u ++ r)) := by
        simp [text_tokens hv, Token.chars, tok, Markup.chars, element]
      rw [htext] at h₁
      have hspace : [].all isSpace = true := rfl
      obtain ⟨s₂, hparse, h₂⟩ := parseParamValue_eq (reads_readBack hR hd hv) hspace hspace h₁
      have hrest' := ih (fun w hw => hordered w (List.mem_cons_of_mem _ hw))
        (acc ++ [v.readBack C]) hmore h₂
      have htokens : tok (.start "param") :: (tok (.start "value") ::
          ((v.tokens C ++ [tok (.close "value")]) ++ [tok (.close "param")]) ++ u) =
          (tok (.start "param") :: tok (.start "value") :: (v.tokens C ++
            [tok (.close "value")])) ++
            tok (.close "param") :: u := by simp
      rw [hparse, htokens]
      refine (hrest'.append _ (isNeutral_close "param") fun a ha => ?_).mono (Nat.le_succ _)
      rw [losesNothing_append _ (isNeutral_close "param"), ← ha, List.append_assoc]
      rfl

end Params

/-! ### Method calls that are cut -/

/-- The name of the method is complete. -/
def IsNamed (name : String) (ts : List Token) : Prop :=
  tok (.leaf "methodName" name.toList) ∈ ts

/-- What the loop over a method call makes of a text that is cut behind the tokens `ts`. -/
def DocumentOutcome (ts : List Token) (r : List Char)
    (res : Except ParseError (Option String × List Value)) (good : Option String →
      List Value → Prop) :
    Prop :=
  ('<' ∈ r ∨ Unfinished ts) ∧ (∃ f, res = .error (.fault f)) ∨
    '<' ∉ r ∧ ¬ Unfinished ts ∧ ∃ name params, res = .ok (name, params) ∧ good name params

section Document

variable {s s' : C.xml.State} {opened : List String} {ts ts' : List Token} {r : List Char}
  {n fuel : ℕ} {name : String} {values : List Value}

/-- The method call ends where its next tag is cut. -/
theorem parseDocument_ends (h : Cuts.Ends C.xml s opened r n) (methodName : Option String)
    (params : List Value) {good : Option String → List Value → Prop} (hts : ¬ Unfinished ts)
    (hgood : good methodName params) :
    DocumentOutcome ts r (parseDocument C (n + 1) s methodName params) good := by
  obtain ⟨hr, hread, -⟩ | ⟨hr, hread⟩ := h
  · refine .inr ⟨hr, hts, methodName, params, ?_, hgood⟩
    rw [parseDocument, hread]
  · refine .inl ⟨.inl hr, ?_⟩
    rw [parseDocument, hread]
    exact ⟨_, rfl⟩

/-- The values of a call are read back. -/
theorem reads_values (hR : C.xml.Cuts) (hd : C.ReadsDoubles)
    (hordered : ∀ v ∈ values, v.IsOrdered) :
    ∀ v ∈ values.map fun v => (content C v, v.readBack C), Reads C v.1 v.2 := by
  intro v hv
  obtain ⟨value, hvalue, rfl⟩ := List.mem_map.mp hv
  exact reads_readBack hR hd (hordered value hvalue)

/-- The texts of the values of a call. -/
theorem map_toList_serializeValue (values : List Value) :
    (values.map (serializeValue C)).map String.toList =
      (values.map fun v => (content C v, v.readBack C)).map fun v => element "value" v.1 := by
  rw [List.map_map, List.map_map]
  exact List.map_congr_left fun v _ => toList_serializeValue v

/-- The parameters of a complete call. -/
theorem parseParams_tokens (hR : C.xml.Cuts) (hd : C.ReadsDoubles)
    (hordered : ∀ v ∈ values, v.IsOrdered)
    (h : C.xml.At s ("params" :: opened)
      (text (paramTokens C values ++ [tok (.close "params")]) ++ r) fuel) :
    ∃ s', parseParams C fuel s [] = .ok (values.map (Value.readBack C), s') ∧
      C.xml.At s' opened r fuel := by
  have htext : text (paramTokens C values ++ [tok (.close "params")]) ++ r =
      (paramsXml (values.map (serializeValue C))).toList ++ (endTag "params" ++ r) := by
    rw [text_append, text_paramTokens hordered, List.append_assoc]
    rfl
  rw [htext] at h
  obtain ⟨s', hparse, hs'⟩ := parseParams_eq (reads_values hR hd hordered)
    (map_toList_serializeValue values) (isParams_paramsXml _) [] h
  rw [List.map_map, List.nil_append] at hparse
  exact ⟨s', hparse, hs'⟩

/-- The tokens up to the name of the method. -/
def callHead (name : String) : List Token :=
  [tok .declaration, tok (.start "methodCall"), tok (.leaf "methodName" name.toList)]

/-- A cut behind the name of the method. -/
theorem cut_params_of_call (hR : C.xml.Cuts) (hd : C.ReadsDoubles)
    (hordered : ∀ v ∈ values, v.IsOrdered)
    (hsplit : tok (.start "params") :: ((paramTokens C values ++ [tok (.close "params")]) ++
      [tok (.close "methodCall")]) = ts ++ ts') (hcut : Cut r ts')
    (h : C.xml.At s ("methodCall" :: opened) (text ts ++ r) fuel) :
    DocumentOutcome (callHead name ++ ts) r (parseDocument C fuel s (some name) [])
      (fun name' params => name' = some name ∧ (params = values.map (Value.readBack C) ↔
        LosesNothing (callHead name ++ ts) ts')) := by
  have hparams : isName "params" = true := by decide
  have hcall : isName "methodCall" = true := by decide
  have hend : ∀ t ∈ [tok (.close "methodCall")], IsClosing t.markup := by decide
  obtain ⟨rfl, rfl⟩ | ⟨ts, rfl, hrest⟩ := List.cons_eq_append_iff.mp hsplit
  · obtain ⟨n, rfl, hends⟩ := hR.tag h (cut_cons.mp hcut) rfl hparams (Markup.start_ne_leaf _)
    have hts : ¬ Unfinished (callHead name) := by
      rintro (h | h) <;> cases h
    rw [List.append_nil]
    refine parseDocument_ends hends (some name) [] hts ⟨rfl, ?_⟩
    rw [losesNothing_cons (by decide), List.forall_mem_append, closing_paramTokens,
      and_iff_left hend, eq_comm, List.map_eq_nil_iff]
  obtain ⟨n, s₁, rfl, hread, h₁⟩ := h.startToken rfl rfl hparams
  have hstep : parseDocument C (n + 1) s (some name) [] = (parseParams C n s₁ [] >>= fun p =>
      parseDocument C n p.2 (some name) p.1) := by
    rw [parseDocument, hread]
    rfl
  have hneutral : IsNeutral (tok (.start "params")).markup :=
    isNeutral_start (by decide) (by decide)
  rw [hstep]
  obtain ⟨u, hu, hcuts, rfl⟩ | ⟨u, rfl, hmore⟩ := append_split hrest
  · have hlast : last u = some (.close "params") := by
      rw [← last_append ts hu, ← hcuts, last_append _ (List.cons_ne_nil _ _)]
      rfl
    have hlost := (losesNothing_append (callHead name) hneutral).trans
      (losesNothing_close ts [tok (.close "methodCall")] hlast)
    rw [and_iff_left hend] at hlost
    obtain ⟨hcase, f, hres⟩ | ⟨hr, hts, a, s₂, opened₂, hres, hs₂, ha⟩ :=
      cut_params hR hd hordered [] hcuts (cut_of_append hu hcut) h₁
    · refine .inl ⟨hcase.imp_right (unfinished_append _ hneutral).mpr, f, ?_⟩
      rw [hres]
      rfl
    · obtain ⟨m, s₃, rfl, heof, -⟩ := hR.blank hs₂ rfl
      refine .inr ⟨hr, fun h => hts ((unfinished_append _ hneutral).mp h), some name, a, ?_,
        rfl, ?_⟩
      · rw [hres]
        show parseDocument C (m + 1) s₂ (some name) a = _
        rw [parseDocument, heof]
      · rw [hlost, ← ha, List.nil_append]
  · obtain ⟨rfl, rfl⟩ := eq_of_singleton hmore hcut
    rw [List.append_nil] at h₁ ⊢
    obtain ⟨s₂, hparse, h₂⟩ := parseParams_tokens hR hd hordered h₁
    obtain ⟨n, rfl, hends⟩ := hR.tag h₂ (cut_cons.mp hcut) rfl hcall (Markup.close_ne_leaf _)
    rw [hparse]
    have hlast := last_append (callHead name ++ tok (.start "params") :: paramTokens C values)
      (List.cons_ne_nil (tok (.close "params")) [])
    rw [List.append_assoc] at hlast
    refine parseDocument_ends hends (some name) _ (not_unfinished_of_last hlast (isNeutral_close _))
      ⟨rfl, iff_of_true rfl (losesNothing_of_closing fun t ht => ?_)⟩
    exact ⟨"methodCall", List.mem_singleton.mp ht ▸ rfl⟩

/-- A cut of a method call. -/
theorem cut_call (hR : C.xml.Cuts) (hd : C.ReadsDoubles) (hname : RawText name.toList)
    (hordered : ∀ v ∈ values, v.IsOrdered) (hsplit : callTokens C name values = ts ++ ts')
    (hcut : Cut r ts') (h : C.xml.At s [] (text ts ++ r) fuel) :
    DocumentOutcome ts r (parseDocument C fuel s none []) (fun name' params =>
      name' = none ∧ ¬ IsNamed name ts ∨ name' = some name ∧ IsNamed name ts ∧
        (params = values.map (Value.readBack C) ↔ LosesNothing ts ts')) := by
  have hcall : isName "methodCall" = true := by decide
  have hmethod : isName "methodName" = true := by decide
  have hsplit' : tok .declaration :: tok (.start "methodCall") ::
      tok (.leaf "methodName" name.toList) :: tok (.start "params") ::
        ((paramTokens C values ++ [tok (.close "params")]) ++ [tok (.close "methodCall")]) =
      ts ++ ts' := by
    rw [← hsplit, callTokens, List.append_assoc]
    rfl
  obtain ⟨rfl, rfl⟩ | ⟨ts, rfl, hrest⟩ := List.cons_eq_append_iff.mp hsplit'
  · obtain ⟨n, rfl, hends⟩ := hR.tag h (cut_cons.mp hcut) rfl trivial Markup.declaration_ne_leaf
    exact parseDocument_ends hends none [] not_unfinished_nil (.inl ⟨rfl, List.not_mem_nil⟩)
  have htext : text (tok .declaration :: ts) ++ r = Xml.declaration ++ (text ts ++ r) :=
    List.append_assoc _ _ _
  rw [htext] at h
  obtain ⟨n, s₁, rfl, hread, h₁⟩ := h.declaration
  have hstep : parseDocument C (n + 1) s none [] = parseDocument C n s₁ none [] := by
    rw [parseDocument, hread]
  rw [hstep]
  obtain ⟨rfl, rfl⟩ | ⟨ts, rfl, hrest₁⟩ := List.cons_eq_append_iff.mp hrest
  · obtain ⟨n, rfl, hends⟩ := hR.tag h₁ (cut_cons.mp hcut) rfl hcall (Markup.start_ne_leaf _)
    have hts : ¬ Unfinished [tok .declaration] := by
      rintro (h | h) <;> cases h
    refine parseDocument_ends hends none [] hts (.inl ⟨rfl, ?_⟩)
    simp [IsNamed, tok]
  obtain ⟨n, s₂, rfl, hread', h₂⟩ := h₁.startToken rfl rfl hcall
  have hstep' : parseDocument C (n + 1) s₁ none [] = parseDocument C n s₂ none [] := by
    rw [parseDocument, hread']
    rfl
  rw [hstep']
  obtain ⟨rfl, rfl⟩ | ⟨ts, rfl, hrest₂⟩ := List.cons_eq_append_iff.mp hrest₁
  · obtain ⟨n, rfl, hends | ⟨hr, s', e, hread, htext⟩⟩ :=
      hR.leaf h₂ (cut_cons.mp hcut) rfl hmethod hname.notMem_lt
    · have hneutral : IsNeutral (.start "methodCall") := isNeutral_start (by decide) (by decide)
      have hts : ¬ Unfinished [tok .declaration, tok (.start "methodCall")] :=
        not_unfinished_of_last rfl hneutral
      refine parseDocument_ends hends none [] hts (.inl ⟨rfl, ?_⟩)
      simp [IsNamed, tok]
    · refine .inl ⟨.inl hr, ?_⟩
      rw [parseDocument, hread]
      simp only [if_true, htext]
      exact ⟨_, rfl⟩
  · obtain ⟨n, s₃, s₄, rfl, hread, htext, h₄⟩ :=
      h₂.leafToken rfl rfl hmethod (hR.readsText hname hmethod)
    have hstep : parseDocument C (n + 1) s₂ none [] = parseDocument C n s₄ (some name) [] := by
      rw [parseDocument, hread]
      simp only [if_true, htext, String.ofList_toList]
    have hnamed : IsNamed name (callHead name ++ ts) :=
      List.mem_append_left _ (List.mem_of_getLast? rfl)
    rw [hstep]
    obtain hcase | ⟨hr, hts, name', params, hres, hname', hparams⟩ :=
      cut_params_of_call hR hd hordered hrest₂ hcut h₄
    · exact .inl hcase
    · exact .inr ⟨hr, hts, name', params, hres, .inr ⟨hname', hnamed, hparams⟩⟩

/-- A complete method call is read back. -/
theorem parse_callXmlrpc (hR : C.xml.Cuts) (hd : C.ReadsDoubles) (hname : RawText name.toList)
    (hmethod : validateMethodName name = .ok ()) (hordered : ∀ v ∈ values, v.IsOrdered) :
    MethodCall.parse C (callXmlrpc name (paramsXml (values.map (serializeValue C)))) =
      .ok ⟨name, values.map (Value.readBack C)⟩ := by
  have hspace : [].all isSpace = true := rfl
  have htext : C.xml.ReadsText "methodName" name.toList := hR.readsText hname (by decide)
  have hdoc := toList_callXmlrpc name (paramsXml (values.map (serializeValue C)))
  rw [← List.append_nil (endTag "methodCall")] at hdoc
  rw [parse_of_toList hmethod (reads_values hR hd hordered) (map_toList_serializeValue values)
    (.inr rfl) htext hspace hspace hspace hspace hspace (isParams_paramsXml _) hdoc, List.map_map]
  rfl

end Document

/-- A document is rejected with a fault, or it is read like another one. -/
def FaultsOrAgrees (C : Codecs) (cut full : String) : Prop :=
  (∃ f, MethodCall.parse C cut = .error (.fault f)) ∨
    ∃ call, MethodCall.parse C cut = .ok call ∧ MethodCall.parse C full = .ok call

/-- The cuts of a method call that are rejected or change nothing: in a tag or a text, before the
name, where something is unfinished, and where nothing but closing tags is lost. -/
def IsHarmlessCut (C : Codecs) (name : String) (values : List Value) (p : List Char) : Prop :=
  ∃ ts ts' r, callTokens C name values = ts ++ ts' ∧ p = text ts ++ r ∧ Cut r ts' ∧
    ('<' ∈ r ∨ ¬ IsNamed name ts ∨ Unfinished ts ∨ LosesNothing ts ts')

section Cut

variable {name : String} {values : List Value} {cut : String}

/-- The result of the loop decides what is parsed. -/
theorem parse_eq_document (C : Codecs) (doc : String) : MethodCall.parse C doc =
    match parseDocument C (doc.toList.length + 1) (C.xml.fromStr doc) none [] with
    | .error e => .error e
    | .ok (none, _) => .error (.fault (.new .incorrectParameters "Missing methodName tag"))
    | .ok (some name, params) =>
        match validateMethodName name with
        | .error f => .error (.fault f)
        | .ok () => .ok ⟨name, params⟩ := by
  unfold MethodCall.parse
  obtain e | ⟨_ | name, params⟩ :=
    parseDocument C (doc.toList.length + 1) (C.xml.fromStr doc) none []
  · rfl
  · rfl
  · rfl

/-- What is parsed of a method call that is cut behind the tokens `ts`. -/
theorem faultsOrAgrees_of_cut (hR : C.xml.Cuts) (hd : C.ReadsDoubles) (hname : RawText name.toList)
    (hordered : ∀ v ∈ values, v.IsOrdered) {ts ts' : List Token} {r : List Char}
    (hsplit : callTokens C name values = ts ++ ts') (hcut : Cut r ts')
    (htext : cut.toList = text ts ++ r) :
    FaultsOrAgrees C cut (callXmlrpc name (paramsXml (values.map (serializeValue C)))) ↔
      validateMethodName name ≠ .ok () ∨ '<' ∈ r ∨ ¬ IsNamed name ts ∨ Unfinished ts ∨
        LosesNothing ts ts' := by
  have h := at_fromStr (R := C.xml) cut
  have hparse := parse_eq_document C cut
  generalize cut.toList.length + 1 = fuel at h hparse
  rw [htext] at h
  obtain ⟨hcase, f, hres⟩ | ⟨hr, hts, name', params, hres,
    ⟨rfl, hnamed⟩ | ⟨rfl, hnamed, hparams⟩⟩ :=
    cut_call hR hd hname hordered hsplit hcut h
  · rw [hres] at hparse
    refine iff_of_true (.inl ⟨f, hparse⟩) ?_
    tauto
  · rw [hres] at hparse
    exact iff_of_true (.inl ⟨_, hparse⟩) (.inr (.inr (.inl hnamed)))
  · rw [hres] at hparse
    cases hmethod : validateMethodName name with
    | error f =>
      simp only [hmethod] at hparse
      exact iff_of_true (.inl ⟨f, hparse⟩) (.inl (by simp))
    | ok =>
      simp only [hmethod] at hparse
      have hagrees : FaultsOrAgrees C cut
          (callXmlrpc name (paramsXml (values.map (serializeValue C)))) ↔
            params = values.map (Value.readBack C) := by
        rw [FaultsOrAgrees, hparse, parse_callXmlrpc hR hd hname hmethod hordered]
        simp [eq_comm]
      rw [hagrees, hparams]
      simp [hr, hnamed, hts]

/-- A method call that is cut is rejected or parsed as the method call exactly when the cut is in a
tag or a text, before the name, behind what is unfinished, or loses nothing. -/
theorem parse_cut_iff (hR : C.xml.Cuts) (hd : C.ReadsDoubles) (hname : RawText name.toList)
    (hordered : ∀ v ∈ values, v.IsOrdered)
    (hcut : cut.toList <+: (callXmlrpc name (paramsXml (values.map (serializeValue C)))).toList)
    (hne : cut ≠ callXmlrpc name (paramsXml (values.map (serializeValue C)))) :
    FaultsOrAgrees C cut (callXmlrpc name (paramsXml (values.map (serializeValue C)))) ↔
      validateMethodName name ≠ .ok () ∨ IsHarmlessCut C name values cut.toList := by
  have hne' : cut.toList ≠ text (callTokens C name values) := by
    rw [text_callTokens hordered]
    exact fun heq => hne (String.toList_injective heq)
  rw [← text_callTokens hordered] at hcut
  obtain ⟨ts, ts', r, hsplit, htext, hnext⟩ := exists_cut hcut hne'
  have hparse := faultsOrAgrees_of_cut hR hd hname hordered hsplit hnext htext
  constructor
  · intro h
    exact (hparse.mp h).imp_right fun hharmless => ⟨ts, ts', r, hsplit, htext, hnext, hharmless⟩
  · rintro (hmethod | ⟨ts₁, ts₁', r₁, hsplit₁, htext₁, hnext₁, hharmless⟩)
    · exact hparse.mpr (.inl hmethod)
    · exact (faultsOrAgrees_of_cut hR hd hname hordered hsplit₁ hnext₁ htext₁).mpr (.inr hharmless)

end Cut

/-- Standard base64 and a reader that reports tags that are not closed. Every double is zero. -/
def strictCodecs : Codecs where
  xml := Xml.strictLexer
  base64 := Base64.standard
  displayF64 _ := "0"
  parseF64 _ := .ok 0

theorem strictCodecs_readsDoubles : strictCodecs.ReadsDoubles := by
  intro d
  have htext : RawText "0".toList := .of_forall (by simp)
  exact ⟨htext, 0, rfl⟩

/-- A call with one parameter. -/
def echoCall : String :=
  callXmlrpc "demo.echo" (paramsXml ([Value.boolean true].map (serializeValue strictCodecs)))

set_option maxRecDepth 2000 in
/-- Behind its value, a call with one parameter loses nothing. -/
theorem parse_cut_of_value : FaultsOrAgrees strictCodecs
    ("<?xml version=\"1.0\"?><methodCall><methodName>demo.echo</methodName><params>" ++
      "<param><value><boolean>1</boolean></value>") echoCall := by
  have hordered : ∀ v ∈ [Value.boolean true], v.IsOrdered := by
    intro v hv
    obtain rfl := List.mem_singleton.mp hv
    exact .boolean true
  have hrest : echoCall.toList =
      ("<?xml version=\"1.0\"?><methodCall><methodName>demo.echo</methodName><params>" ++
        "<param><value><boolean>1</boolean></value>").toList ++
          "</param></params></methodCall>".toList := rfl
  refine (parse_cut_iff strictLexer_cuts strictCodecs_readsDoubles (.of_forall (by simp)) hordered
    ⟨_, hrest.symm⟩ fun heq => ?_).mpr (.inr ⟨callHead "demo.echo" ++
    [tok (.start "params"), tok (.start "param"), tok (.start "value"), tok (.leaf "boolean" ['1']),
      tok (.close "value")],
      [tok (.close "param"), tok (.close "params"), tok (.close "methodCall")],
    [], rfl, rfl, cut_cons.mpr ⟨List.nil_prefix, (List.cons_ne_nil _ _).symm⟩, ?_⟩)
  · rw [← show _ = echoCall from heq] at hrest
    exact List.cons_ne_nil _ _ (List.self_eq_append_right.mp hrest)
  · exact .inr (.inr (.inr (.inl (by decide))))

/-- Before its parameters, a call is a call without parameters. -/
theorem parse_cut_of_params :
    MethodCall.parse strictCodecs
        "<?xml version=\"1.0\"?><methodCall><methodName>demo.echo</methodName><params>" =
      .ok ⟨"demo.echo", []⟩ ∧
      MethodCall.parse strictCodecs echoCall = .ok ⟨"demo.echo", [.boolean true]⟩ ∧
      ¬ FaultsOrAgrees strictCodecs
        "<?xml version=\"1.0\"?><methodCall><methodName>demo.echo</methodName><params>"
        echoCall := by
  have hcut : MethodCall.parse strictCodecs
      "<?xml version=\"1.0\"?><methodCall><methodName>demo.echo</methodName><params>" =
        .ok ⟨"demo.echo", []⟩ := rfl
  have hfull : MethodCall.parse strictCodecs echoCall = .ok ⟨"demo.echo", [.boolean true]⟩ := by
    refine parse_callXmlrpc strictLexer_cuts strictCodecs_readsDoubles (.of_forall (by simp)) rfl
      fun v hv => ?_
    obtain rfl := List.mem_singleton.mp hv
    exact .boolean true
  refine ⟨hcut, hfull, ?_⟩
  rintro (⟨f, hf⟩ | ⟨call, hcall, hcall'⟩)
  · rw [hcut] at hf
    cases hf
  · have heq := Except.ok.inj ((hcut.symm.trans hcall).trans (hcall'.symm.trans hfull))
    cases (MethodCall.mk.inj heq).2

end XmlRpc

end Rsupervisord
