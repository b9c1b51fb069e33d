/-!
# Environments

The variables of a process, as far as settings are taken from them.
-/

namespace HttpDispatch

abbrev Environment := List (String × String)

end HttpDispatch
