import ModuleLink.Text.Search

/-!
The naming convention for packages that carry native code.
-/

namespace ModuleLink
namespace Library

def frameworkStart : List Char := "react-native-".toList

def pluginStart : List Char := "rnpm-plugin-".toList

/-- The scopes of the framework itself start with this. -/
def frameworkScope : List Char := "react-native".toList

/-- A name in a scope: framework names count in every scope, plugin names outside the framework's own scopes, and
everything but plugins inside them. -/
def isNativeIn (scope name : List Char) : Bool :=
  !scope.isEmpty &&
    (Text.startsWith frameworkStart name ||
      (Text.startsWith frameworkScope scope != Text.startsWith pluginStart name))

def isNativeChars (cs : List Char) : Bool :=
  Text.startsWith frameworkStart cs || Text.startsWith pluginStart cs ||
    match cs with
    | '@' :: rest =>
      match rest.dropWhile (· != '/') with
      | '/' :: name => isNativeIn (rest.takeWhile (· != '/')) name
      | _ => false
    | _ => false

/-- The name follows the convention. -/
def isNative (name : String) : Bool := isNativeChars name.toList

end Library
end ModuleLink
