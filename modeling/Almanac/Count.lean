namespace Almanac.Count

def least : Int := -9223372036854775808

def greatest : Int := 9223372036854775807

def clamp (n : Int) : Int := max least (min greatest n)

end Almanac.Count
