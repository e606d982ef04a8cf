import ComponentGlue.Rule.Field
import ComponentGlue.Rule.Method
import ComponentGlue.Rule.Type

set_option autoImplicit false
set_option relaxedAutoImplicit false

namespace ComponentGlue

/-- The rules of the standard markers in processing order. -/
def standardRules : List Rule :=
  [Component.rule, PreferenceHelper.rule, RestClient.rule, BoundView.rule, HtmlText.rule,
    PreferenceField.rule, OptionsMenu.rule, OptionsItem.rule] ++
  ResourceKind.all.map ResourceKind.rule ++
  ListenerKind.all.map ListenerKind.rule ++
  ThreadKind.all.map ThreadKind.rule ++
  [Extra.rule, SystemService.rule] ++
  LifecycleHook.all.map LifecycleHook.rule ++
  [Transaction.rule, ApplicationField.rule] ++
  HttpMethod.all.map HttpMethod.rule

/-- The validators and processors of a run. -/
structure Registry where
  validators : List Validator
  processors : List Processor

namespace Registry

def ofRules (rules : List Rule) : Registry where
  validators := rules.map Rule.validator
  processors := rules.map Rule.processor

def standard : Registry := ofRules standardRules

def kinds (r : Registry) : List Marker := r.processors.map Processor.kind

end Registry

end ComponentGlue
