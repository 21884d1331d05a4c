/-!
Powers with a whole exponent are the core operations, whatever other instances a module sees.
-/

attribute [instance (1100)] instPowNat

attribute [default_instance 20000] instPowNat
